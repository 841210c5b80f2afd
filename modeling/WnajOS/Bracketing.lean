import WnajOS.Scheduler

/-!
# Executing a program and coming back

A process `P` executes a program `C`.  Until `C` halts, the other terminals and the programs
that `C` executes may do what they like; then `P` is back with everything it had.  This holds
when the base shells have the pids 0, 1 and 2 and none of them halts: then every step is
orderly.

One call of `C` breaks it.  When an entry of a strange file type is opened in a descriptor that
has no driver, the call of its `open` faults; the descriptor stays in use, `syscall_halt` faults
again when it closes it, and the exception handler halts `P`.
-/

namespace WnajOS

/-! ### Base shells -/

/-- The base shells of the three terminals have the pids 0, 1 and 2. -/
def Based (live : Ledger) : Prop :=
  ∀ t < numTtys, ∃ b, (live t).getLast? = some b ∧ 0 ≤ b ∧ b ≤ 2

instance (live : Ledger) : Decidable (Based live) :=
  inferInstanceAs (Decidable (∀ t < numTtys, ∃ b ∈ (live t).getLast?, 0 ≤ b ∧ b ≤ 2))

namespace Based

variable {k : Kernel} {live : Ledger}

/-- The pids of the base shells are taken. -/
lemma held (hb : Based live) (h : Inv k live) {i : ℤ} (h0 : 0 ≤ i) (h2 : i ≤ 2) :
    k.pid i = 1 := by
  obtain ⟨b₀, hb₀, h00, h02⟩ := hb 0 (by decide)
  obtain ⟨b₁, hb₁, h10, h12⟩ := hb 1 (by decide)
  obtain ⟨b₂, hb₂, h20, h22⟩ := hb 2 (by decide)
  have hm₀ := List.mem_of_getLast? hb₀
  have hm₁ := List.mem_of_getLast? hb₁
  have hm₂ := List.mem_of_getLast? hb₂
  -- the three pids are different, so they are all of 0, 1 and 2
  have h01 : b₀ ≠ b₁ := by
    rintro rfl
    exact h.disjoint 0 1 (by decide) b₀ hm₀ hm₁
  have h02' : b₀ ≠ b₂ := by
    rintro rfl
    exact h.disjoint 0 2 (by decide) b₀ hm₀ hm₂
  have h12' : b₁ ≠ b₂ := by
    rintro rfl
    exact h.disjoint 1 2 (by decide) b₁ hm₁ hm₂
  have hcases : i = b₀ ∨ i = b₁ ∨ i = b₂ := by omega
  rcases hcases with rfl | rfl | rfl
  · exact h.held 0 _ hm₀
  · exact h.held 1 _ hm₁
  · exact h.held 2 _ hm₂

/-- Every terminal has a process, the one on top of its stack. -/
lemma top (hb : Based live) (h : Inv k live) {t : ℕ} (ht : t < numTtys) :
    ∃ c l, live t = c :: l ∧ (k.terms t).pid = c ∧ (k.context t).point.proc = some c := by
  obtain ⟨b, hlast, h0, h2⟩ := hb t ht
  have hne : live t ≠ [] := by
    intro hnil
    rw [hnil] at hlast
    exact absurd hlast (by simp)
  cases h.term t with
  | live hlive hpid hctx => exact ⟨_, _, hlive, hpid, hctx⟩
  | restart hpid hrange hfree hid hbase hctx =>
    have hheld := hb.held h hrange.1 (hbase hne)
    rw [hfree] at hheld
    exact absurd hheld (by decide)
  | unused hpid hlive hctx => exact absurd hlive hne

/-- A process that is not a base shell was executed by the one below it. -/
lemma below (hb : Based live) (h : Inv k live) {t : ℕ} (ht : t < numTtys) {c : ℤ} {l : List ℤ}
    (hlive : live t = c :: l) (hc : 3 ≤ c) :
    ∃ p l', l = p :: l' ∧ (k.pcbOf c).saved = .linkage p ∧ (k.pcbOf c).parentId = p := by
  obtain ⟨b, hlast, h0, h2⟩ := hb t ht
  rw [hlive] at hlast
  cases l with
  | nil =>
    obtain rfl : c = b := Option.some.inj hlast
    omega
  | cons p l' =>
    have hstack := h.stacked t
    rw [hlive] at hstack
    obtain ⟨hs, hp⟩ := hstack.2.1.nested p rfl hc
    exact ⟨p, l', rfl, hs, hp⟩

/-- A free slot is above those of the base shells. -/
lemma slot_high (hb : Based live) (h : Inv k live) {i : ℕ} (hi : freeSlot k.pid = some i) :
    3 ≤ i := by
  by_contra hlt
  have hheld := hb.held h (i := (i : ℤ)) (by omega) (by omega)
  rw [(freeSlot_spec hi).2.1] at hheld
  exact absurd hheld (by decide)

/-- A new process leaves the base shells where they are. -/
lemma push (hb : Based live) (s : ℕ) (hs : s < numTtys) (c : ℤ) :
    Based (Function.update live s (c :: live s)) := by
  intro t ht
  by_cases hts : t = s
  · subst hts
    obtain ⟨b, hlast, hrange⟩ := hb t ht
    refine ⟨b, ?_, hrange⟩
    rw [Function.update_self]
    cases hl : live t with
    | nil =>
      rw [hl] at hlast
      exact absurd hlast (by simp)
    | cons a l =>
      rw [hl] at hlast
      rw [List.getLast?_cons_cons]
      exact hlast
  · rw [Function.update_of_ne hts]
    exact hb t ht

/-- The end of a process on top of another one leaves the base shells where they are. -/
lemma pop (hb : Based live) {s : ℕ} {c p : ℤ} {l : List ℤ} (hlive : live s = c :: p :: l) :
    Based (Function.update live s (p :: l)) := by
  intro t ht
  by_cases hts : t = s
  · subst hts
    obtain ⟨b, hlast, hrange⟩ := hb t ht
    rw [hlive, List.getLast?_cons_cons] at hlast
    exact ⟨b, by rw [Function.update_self]; exact hlast, hrange⟩
  · rw [Function.update_of_ne hts]
    exact hb t ht

/-- With the base shells in place, nothing the kernel does by itself can go wrong: every step
that halts no base shell is orderly. -/
lemma orderly {img : Image} {k' : Kernel} {e : Event} (hb : Based live) (h : Inv k live)
    (hsettled : ¬k.Exposed) (hends : e.ends → 3 ≤ k.cur) (hs : step img e k = some k') :
    Orderly img e k := by
  obtain ⟨c, l, hlive, hpid, hctx⟩ := hb.top h h.sched
  rw [k.context_self] at hctx
  refine ⟨fun _ i hi t ht _ heq => ?_, fun he hparent => ?_, fun hown => ?_, fun _ => hsettled⟩
  · -- the processes of the other terminals hold their slots
    obtain ⟨c', l', hlive', hpid', -⟩ := hb.top h ht
    have hheld := h.held t c' (hlive' ▸ List.mem_cons_self ..)
    rw [← hpid', heq, (freeSlot_spec hi).2.1] at hheld
    exact absurd hheld (by decide)
  · have hcur : k.cur = c := hpid
    obtain ⟨p, l', -, hsaved, -⟩ := hb.below h h.sched hlive (hcur ▸ hends he)
    rw [hcur, hsaved]
    trivial
  · -- the kernel executes a shell only where no process runs
    exfalso
    cases step_cases hs with
    | bootExec hpt =>
      rw [hpt] at hctx
      exact absurd hctx (by simp [Point.proc])
    | restartExec hpt =>
      rw [hpt] at hctx
      exact absurd hctx (by simp [Point.proc])
    | _ => exact absurd hown (by simp [Event.isOwn])

end Based

/-! ### Closing the descriptors -/

/-- Every open descriptor of `2 … 7` has a driver. -/
def Closable (fds : FdArr) : Prop :=
  ∀ i, 2 ≤ i → i < 8 → (fds i).flags ≠ 0 → (fds i).fileOps ≠ none

lemma setupFd_closable (fds : FdArr) : Closable (setupFd fds) := by
  intro i h2 h8 hflags
  refine absurd ?_ hflags
  rw [setupFd, if_neg (by omega), if_neg (by omega), if_pos (by simpa [maxFdArrSize] using h8)]
  rfl

/-- The event does not open an entry of a strange file type in a descriptor without a driver. -/
def OpensDriver (img : Image) (e : Event) (k : Kernel) : Prop :=
  ∀ name, e.call? k = some (.openFile name) → ∀ d ∈ readDentryByName img name,
    ∀ i ∈ vacantFrom k.pcb.fdArr 7 0, driverOf d.fileType = none →
      (k.pcb.fdArr i).fileOps ≠ none

instance (img : Image) (e : Event) (k : Kernel) : Decidable (OpensDriver img e k) :=
  match he : e.call? k with
  | some (.openFile name) =>
    decidable_of_iff (∀ d ∈ readDentryByName img name, ∀ i ∈ vacantFrom k.pcb.fdArr 7 0,
        driverOf d.fileType = none → (k.pcb.fdArr i).fileOps ≠ none)
      ⟨fun h name' hname => by cases he.symm.trans hname; exact h, fun h => h name he⟩
  | some (.close _) => .isTrue fun name hname => by cases he.symm.trans hname
  | some (.read _ _ _) => .isTrue fun name hname => by cases he.symm.trans hname
  | some (.write _ _ _) => .isTrue fun name hname => by cases he.symm.trans hname
  | none => .isTrue fun name hname => by cases he.symm.trans hname

/-- Such an event keeps the descriptors closable. -/
lemma Closable.change {img : Image} {e : Event} {k : Kernel} {c : Call} {fds : FdArr}
    (h : Closable k.pcb.fdArr) (hopen : OpensDriver img e k) (he : e.call? k = some c)
    (hc : FdsChange img k.pcb.fdArr c fds) : Closable fds := by
  cases hc with
  | same => exact h
  | @opened name m d hm hd =>
    intro i h2 h8 hflags
    by_cases hi : i = m
    · subst hi
      rw [Function.update_self, newEntry]
      cases hdrv : driverOf d.fileType with
      | some driver => exact Option.some_ne_none driver
      | none => exact hopen name he d hd i hm hdrv
    · rw [Function.update_of_ne hi] at hflags ⊢
      exact h i h2 h8 hflags
  | @closed fd hf2 hf8 =>
    intro i h2 h8 hflags
    by_cases hi : i = fdIndex fd
    · subst hi
      rw [Function.update_self] at hflags
      exact absurd rfl hflags
    · rw [Function.update_of_ne hi] at hflags ⊢
      exact h i h2 h8 hflags
  | @moved fd nbytes buf hf8 hf hops pos =>
    intro i h2 h8 hflags
    by_cases hi : i = fdIndex fd
    · subst hi
      rw [Function.update_self]
      exact h _ h2 h8 hf
    · rw [Function.update_of_ne hi] at hflags ⊢
      exact h i h2 h8 hflags

/-- `syscall_close` of a descriptor that has a driver if it is open. -/
lemma syscallClose_low (k : Kernel) {fd : ℕ} (h2 : 2 ≤ fd) (h8 : fd < 8)
    (hops : (k.pcb.fdArr fd).flags ≠ 0 → (k.pcb.fdArr fd).fileOps ≠ none) :
    ∃ r fds, syscallClose k (Int32.ofNat fd) = .done (r, k.setFds fds) ∧ (fds fd).flags = 0 ∧
      ∀ i, i ≠ fd → fds i = k.pcb.fdArr i := by
  have hfd : fdIndex (Int32.ofNat fd) = fd ∧ ¬Int32.ofNat fd < 2 ∧ ¬Int32.ofNat fd ≥ 8 := by
    interval_cases fd <;> decide
  obtain ⟨hidx, hlo, hhi⟩ := hfd
  rw [syscallClose, hidx]
  by_cases hflags : (k.pcb.fdArr fd).flags = 0
  · rw [if_pos (Or.inr (Or.inr hflags))]
    exact ⟨-1, k.pcb.fdArr, by rw [SameProcs.setFds_self], hflags, fun i _ => rfl⟩
  · rw [if_neg (by rintro (h | h | h); exacts [hlo h, hhi h, hflags h])]
    obtain ⟨driver, hd⟩ := Option.ne_none_iff_exists'.1 (hops hflags)
    dsimp only
    rw [hd]
    refine ⟨0, _, rfl, ?_, fun i hi => Function.update_of_ne hi ..⟩
    rw [Function.update_self]
    rfl

/-- The loop of `syscall_halt` closes every descriptor. -/
lemma closeFrom_ok (n fd : ℕ) (k : Kernel) (h2 : 2 ≤ fd) (h8 : fd + n ≤ 8)
    (hops : ∀ i, fd ≤ i → i < fd + n → (k.pcb.fdArr i).flags ≠ 0 →
      (k.pcb.fdArr i).fileOps ≠ none) :
    ∃ fds, closeFrom n fd k = .ok (k.setFds fds) ∧
      (∀ i, fd ≤ i → i < fd + n → (fds i).flags = 0) ∧ ∀ i, i < fd → fds i = k.pcb.fdArr i := by
  induction n generalizing fd k with
  | zero =>
    exact ⟨k.pcb.fdArr, by rw [SameProcs.setFds_self, closeFrom], fun i hi hlt => by omega,
      fun i _ => rfl⟩
  | succ n ih =>
    obtain ⟨r, fds, hclose, hflags, hother⟩ :=
      syscallClose_low k h2 (by omega) (hops fd le_rfl (by omega))
    rw [closeFrom, hclose]
    dsimp only
    have hclear := clearOps_setFds (k.setFds fds) fd
    rw [Kernel.setFds_setFds, Kernel.setFds_fdArr] at hclear
    rw [hclear]
    -- the array after the first round
    generalize hfds₁ : Function.update fds fd { fds fd with fileOps := none } = fds₁
    have hself : (fds₁ fd).flags = 0 := by
      rw [← hfds₁, Function.update_self]
      exact hflags
    have hrest : ∀ i, i ≠ fd → fds₁ i = k.pcb.fdArr i := fun i hi => by
      rw [← hfds₁, Function.update_of_ne hi, hother i hi]
    obtain ⟨fds', hok, hcl, hlow⟩ := ih (fd + 1) (k.setFds fds₁) (by omega) (by omega)
      fun i hi hlt => by
        rw [Kernel.setFds_fdArr, hrest i (by omega)]
        exact hops i (by omega) (by omega)
    rw [Kernel.setFds_setFds] at hok
    rw [Kernel.setFds_fdArr] at hlow
    refine ⟨fds', hok, fun i hi hlt => ?_, fun i hi => ?_⟩
    · rcases Nat.eq_or_lt_of_le hi with rfl | hi
      · rw [hlow fd (Nat.lt_succ_self fd)]
        exact hself
      · exact hcl i hi (by omega)
    · rw [hlow i (by omega), hrest i (by omega)]

/-- `syscall_halt` of a process whose descriptors are closable comes back to the parent. -/
lemma haltFinish_back (k : Kernel) (c : ℤ) (hthis : k.thisPcb = pcbAddr c)
    (hclosable : Closable (k.pcbOf c).fdArr) :
    k.haltFinish.thisPcb = pcbAddr (k.pcbOf c).parentId ∧
    k.haltFinish.esp0 = stackBase (k.pcbOf c).parentId ∧
    k.haltFinish.ctl = (k.pcbOf c).saved.resume ∧
    ∀ i, 2 ≤ i → i < 8 → ((k.haltFinish.pcbOf c).fdArr i).flags = 0 := by
  have hpcb : k.pcb = k.pcbOf c := by rw [Kernel.pcb, hthis, Kernel.pcbOf]
  have hcl : k.haltClosing.pcb = { k.pcb with active := false, processId := -1 } :=
    Function.update_self _ _ _
  have hfdArr : k.haltClosing.pcb.fdArr = (k.pcbOf c).fdArr := by rw [hcl, hpcb]
  obtain ⟨fds, hok, hclosed, -⟩ := closeFrom_ok 6 2 k.haltClosing le_rfl le_rfl
    fun i hi hlt => by
      rw [hfdArr]
      exact hclosable i hi hlt
  have hpcbs := haltClosing_pcbOf k c hthis fds c
  rw [haltFinish_eq, hok, hpcb]
  refine ⟨rfl, rfl, rfl, fun i h2 h8 => ?_⟩
  have hc : ((k.haltClosing.setFds fds).pcbOf c).fdArr = fds := by
    rw [hpcbs, if_pos rfl]
  exact (congrArg (fun f : FdArr => (f i).flags) hc).trans (hclosed i h2 h8)

/-! ### While the child is alive -/

/-- The child `C` of `P` is alive on the terminal `t`, and the process control block of `P` is
`b`. -/
structure Bracket (t : ℕ) (P C : ℤ) (b : Pcb) (k : Kernel) (live : Ledger) : Prop where
  inv : Inv k live
  based : Based live
  settled : ¬k.Exposed
  stack : ∃ above below, live t = above ++ C :: P :: below
  parent : k.pcbOf P = b
  closable : Closable (k.pcbOf C).fdArr

namespace Bracket

variable {t : ℕ} {P C : ℤ} {b : Pcb} {k k' : Kernel} {live : Ledger}

lemma child_mem (h : Bracket t P C b k live) : C ∈ live t := by
  obtain ⟨above, below, hstack⟩ := h.stack
  rw [hstack]
  exact List.mem_append_right _ (List.mem_cons_self ..)

lemma parent_mem (h : Bracket t P C b k live) : P ∈ live t := by
  obtain ⟨above, below, hstack⟩ := h.stack
  rw [hstack]
  exact List.mem_append_right _ (List.mem_cons_of_mem _ (List.mem_cons_self ..))

/-- The scheduled process is on top of the stack of the scheduled terminal, at its point of the
code. -/
lemma cur_top (h : Bracket t P C b k live) :
    (∃ l, live k.scheduledTerm = k.cur :: l) ∧ k.ctl.point.proc = some k.cur := by
  obtain ⟨c, l, hlive, hpid, hctx⟩ := h.based.top h.inv h.inv.sched
  obtain rfl : k.cur = c := hpid
  rw [k.context_self] at hctx
  exact ⟨⟨l, hlive⟩, hctx⟩

/-- A process of the terminal `t` that is scheduled is scheduled there. -/
lemma sched_of_cur (h : Bracket t P C b k live) {p : ℤ} (hp : p ∈ live t) (hcur : k.cur = p) :
    k.scheduledTerm = t := by
  by_contra hne
  exact h.inv.pid_ne hp hne hcur

/-- `P` waits. -/
lemma cur_ne_parent (h : Bracket t P C b k live) : k.cur ≠ P := by
  intro hcur
  obtain ⟨⟨l, hlive⟩, -⟩ := h.cur_top
  have hsched := h.sched_of_cur h.parent_mem hcur
  obtain ⟨above, below, hstack⟩ := h.stack
  have hnodup := h.inv.nodup t
  rw [hsched, hcur, hstack] at hlive
  rw [hstack] at hnodup
  cases above with
  | nil =>
    obtain rfl : C = P := (List.cons.inj hlive).1
    exact (List.nodup_cons.1 hnodup).1 (List.mem_cons_self ..)
  | cons a above =>
    obtain rfl : a = P := (List.cons.inj hlive).1
    refine (List.nodup_cons.1 hnodup).1 ?_
    exact List.mem_append_right _ (List.mem_cons_of_mem _ (List.mem_cons_self ..))

/-- A process that is not exposed and moves within its program stays so. -/
lemma settled_moves (hsettled : ¬k.Exposed) (hm : k.ctl.Moves k'.ctl)
    (hsaved : ∀ q, (k'.pcbOf q).saved = (k.pcbOf q).saved) : ¬k'.Exposed := by
  rintro ⟨c, hc, hlink, hstack⟩
  rw [hsaved] at hlink
  generalize hx : k.ctl = x at hm
  generalize k'.ctl = x' at hm hc hstack
  cases hm with
  | refl =>
    subst hx
    exact hsettled ⟨c, hc, hlink, hstack⟩
  | within hx hx' hold hruns =>
    rw [hold] at hc
    exact absurd hc (by simp)

/-- A step that changes no process control block. -/
lemma same (h : Bracket t P C b k live) (hinv : Inv k' live) (hpcbs : k'.pcbs = k.pcbs)
    (hm : k.ctl.Moves k'.ctl) : Bracket t P C b k' live := by
  have hpcb : ∀ q, k'.pcbOf q = k.pcbOf q := fun q => by rw [Kernel.pcbOf, hpcbs, Kernel.pcbOf]
  exact ⟨hinv, h.based, settled_moves h.settled hm fun q => by rw [hpcb], h.stack,
    (hpcb P).trans h.parent, by rw [hpcb]; exact h.closable⟩

/-- A call is one of the scheduled process, on its own descriptors. -/
lemma called (h : Bracket t P C b k live) {img : Image} {e : Event} {p : ℤ} {c : Call}
    {fds : FdArr} (hinv : Inv k' live) (hopen : k.cur = C → OpensDriver img e k)
    (he : e.call? k = some c) (hp : k.ctl.point.runs = some p)
    (hfds : FdsChange img k.pcb.fdArr c fds) (hpcbs : k'.pcbs = (k.setFds fds).pcbs)
    (hm : k.ctl.Moves k'.ctl) : Bracket t P C b k' live := by
  have hcur : k.cur = p := (h.inv.proc (Point.proc_of_runs hp)).choose_spec.2
  have hthis : k.thisPcb = pcbAddr k.cur := by
    rw [hcur]
    exact (h.inv.cpu p hp).thisPcb
  have hown : k.pcb = k.pcbOf k.cur := by rw [Kernel.pcb, hthis, Kernel.pcbOf]
  have hpcb : ∀ q, k'.pcbOf q
      = if q = k.cur then { k.pcbOf k.cur with fdArr := fds } else k.pcbOf q := by
    intro q
    have hset : k.setFds fds = k.setPcb (pcbAddr k.cur) { k.pcbOf k.cur with fdArr := fds } := by
      rw [Kernel.setFds, hthis, hown]
    rw [Kernel.pcbOf, hpcbs, hset]
    exact Kernel.setPcb_pcbOf k k.cur q _
  have hsaved : ∀ q, (k'.pcbOf q).saved = (k.pcbOf q).saved := fun q => by
    rw [hpcb]
    split
    · rename_i hq
      rw [hq]
    · rfl
  refine ⟨hinv, h.based, settled_moves h.settled hm hsaved, h.stack, ?_, ?_⟩
  · rw [hpcb, if_neg (Ne.symm h.cur_ne_parent)]
    exact h.parent
  · rw [hpcb]
    by_cases hcC : C = k.cur
    · have hclosable := h.closable
      rw [hcC, ← hown] at hclosable
      rw [if_pos hcC]
      exact hclosable.change (hopen hcC.symm) he hfds
    · rw [if_neg hcC]
      exact h.closable

/-- A tick saves the context of the scheduled process, and the one it resumes was parked. -/
lemma tick (h : Bracket t P C b k live) (hinv : Inv k' live) (ht : Ticked k k') :
    Bracket t P C b k' live := by
  have hsaved : ∀ q, (k'.pcbOf q).saved = (k.pcbOf q).saved ∧
      (k'.pcbOf q).fdArr = (k.pcbOf q).fdArr := fun q => by
    rw [ht.pcbOf]
    split
    · rename_i hq
      rw [hq.1]
      exact ⟨rfl, rfl⟩
    · exact ⟨rfl, rfl⟩
  refine ⟨hinv, h.based, ?_, h.stack, ?_, by rw [(hsaved C).2]; exact h.closable⟩
  · rintro ⟨c, hc, hlink, hstack⟩
    have hnext : k'.scheduledTerm ≠ k.scheduledTerm := by
      rw [ht.scheduledTerm, numTtys]
      omega
    have hpid : (k.terms k'.scheduledTerm).pid = c := by
      rw [← ht.termPid]
      exact hinv.entering hc
    obtain ⟨c', l', hlive', hpid', -⟩ := h.based.top h.inv hinv.sched
    have hneg : (k.terms k'.scheduledTerm).pid ≠ -1 := by
      have hrange := h.inv.range _ c' (hlive' ▸ List.mem_cons_self ..)
      omega
    obtain ⟨hpt, hsk⟩ := h.inv.tick_context ht h.settled k'.scheduledTerm hneg
    rw [k'.context_self] at hpt hsk
    rw [hpt] at hc
    have hent : (k.context k'.scheduledTerm).point.entering?.isSome := by
      rw [show (k.context k'.scheduledTerm).point.entering? = some c from hc]
      rfl
    rcases h.inv.parked _ hnext hneg hent with hl | hl
    · rw [hpid, ← (hsaved c).1] at hl
      exact hlink hl
    · rw [hpid, ← hsk hent] at hl
      exact hstack hl
  · rw [ht.pcbOf, if_neg (fun hc => h.cur_ne_parent hc.1.symm)]
    exact h.parent

/-- A new process: a program executes it, and its slot is not that of `P` or `C`. -/
lemma create (h : Bracket t P C b k live) {e : Event} {caller : Caller} {command : Str}
    {buf : Buf} {i : ℕ} {args : Buf}
    (hinv : Inv k' (Function.update live k.scheduledTerm ((i : ℤ) :: live k.scheduledTerm)))
    (he : Starts k e caller command buf) (hi : freeSlot k.pid = some i)
    (hc : Created k i caller args k') :
    Bracket t P C b k'
      (Function.update live k.scheduledTerm ((i : ℤ) :: live k.scheduledTerm)) := by
  have hnew : ∀ q ∈ live t, k'.pcbOf q = k.pcbOf q := by
    intro q hq
    rw [hc.pcbOf, if_neg]
    rintro rfl
    exact h.inv.not_mem_of_free (freeSlot_spec hi).2.1 t hq
  refine ⟨hinv, h.based.push _ h.inv.sched _, ?_, ?_, (hnew P h.parent_mem).trans h.parent,
    by rw [hnew C h.child_mem]; exact h.closable⟩
  · rintro ⟨c, hc', hlink, -⟩
    rw [hc.ctl] at hc'
    obtain rfl : (i : ℤ) = c := Option.some.inj hc'
    rw [hc.pcbOf, if_pos rfl] at hlink
    have hproc := h.cur_top.2
    cases he with
    | execute _ _ hpt => exact hlink trivial
    | boot _ hpt =>
      rw [hpt] at hproc
      exact absurd hproc (by simp [Point.proc])
    | restart _ hpt =>
      rw [hpt] at hproc
      exact absurd hproc (by simp [Point.proc])
  · obtain ⟨above, below, hstack⟩ := h.stack
    by_cases hts : t = k.scheduledTerm
    · subst hts
      exact ⟨i :: above, below, by rw [Function.update_self, hstack]; rfl⟩
    · exact ⟨above, below, by rw [Function.update_of_ne hts]; exact hstack⟩

/-- A descendant of `C`, or a process of another terminal, comes to its end. -/
lemma halt (h : Bracket t P C b k live) {p : ℤ} {l : List ℤ}
    (hinv : Inv k' (Function.update live k.scheduledTerm (p :: l)))
    (hlive : live k.scheduledTerm = k.cur :: p :: l) (hcC : C ≠ k.cur)
    (hsaved : (k.pcbOf k.cur).saved = .linkage p) (hfin : Finished k k.cur p (k.pcbOf k.cur) k') :
    Bracket t P C b k' (Function.update live k.scheduledTerm (p :: l)) := by
  obtain ⟨fds, hpcb⟩ := hfin.pcbOf
  have hother : ∀ q, q ≠ k.cur → k'.pcbOf q = k.pcbOf q := fun q hq => by
    rw [hpcb, if_neg hq]
  refine ⟨hinv, h.based.pop hlive, ?_, ?_, (hother P (Ne.symm h.cur_ne_parent)).trans h.parent,
    by rw [hother C hcC]; exact h.closable⟩
  · rintro ⟨c, hc, -⟩
    rcases hfin.back with ⟨-, -, hctl⟩ | hctl
    · rw [hctl, hsaved] at hc
      exact absurd hc (by simp [Caller.resume, Point.entering?])
    · rw [hctl, hsaved] at hc
      exact absurd hc (by simp [Caller.raise, Point.entering?])
  · obtain ⟨above, below, hstack⟩ := h.stack
    by_cases hts : t = k.scheduledTerm
    · subst hts
      rw [hstack] at hlive
      cases above with
      | nil => exact absurd (List.cons.inj hlive).1 hcC
      | cons a above =>
        exact ⟨above, below, by rw [Function.update_self]; exact (List.cons.inj hlive).2.symm⟩
    · exact ⟨above, below, by rw [Function.update_of_ne hts]; exact hstack⟩

/-- A step of the run keeps the bracket open, unless it is the halt of `C`. -/
lemma step {img : Image} {e : Event} {m m' : Machine} (h : Bracket t P C b m.kernel m.live)
    (hbase : ¬(e.ends ∧ 0 ≤ m.kernel.cur ∧ m.kernel.cur ≤ 2)) (hC : ¬(e.ends ∧ m.kernel.cur = C))
    (hopen : m.kernel.cur = C → OpensDriver img e m.kernel) (hs : m.step img e = some m') :
    Bracket t P C b m'.kernel m'.live := by
  obtain ⟨k₁, hk₁, -⟩ := Option.map_eq_some_iff.1 hs
  obtain ⟨⟨l, hlive⟩, hproc⟩ := h.cur_top
  have hrange := h.inv.range _ m.kernel.cur (hlive ▸ List.mem_cons_self ..)
  have hhigh : e.ends → 3 ≤ m.kernel.cur := fun he => by
    by_contra hlt
    exact hbase ⟨he, hrange.1, by omega⟩
  have horderly := h.based.orderly h.inv h.settled hhigh hk₁
  have hinv := h.inv.step horderly hs
  have heff := step_effect hs
  obtain ⟨k, live⟩ := m
  obtain ⟨k', live'⟩ := m'
  dsimp only at h hC hopen hlive hproc hhigh horderly hinv heff ⊢
  cases heff with
  | same _ hpcbs hmoves => exact h.same hinv hpcbs hmoves
  | called he hp _ hfds hpcbs hmoves => exact h.called hinv hopen he hp hfds hpcbs hmoves
  | tick he ht => exact h.tick hinv ht
  | created he hd hi hfits hc => exact h.create hinv he hi hc
  | @faulted caller command buf d i he hd hi hfits hk =>
    obtain ⟨c, rfl, hc⟩ := hk
    refine ⟨hinv, h.based, ?_, h.stack, h.parent, h.closable⟩
    rintro ⟨c', hc', -⟩
    cases he with
    | execute _ _ hpt =>
      dsimp only at hc'
      rw [hc _ rfl] at hc'
      exact absurd hc' (by simp [Point.entering?])
    | boot _ hpt =>
      rw [hpt] at hproc
      exact absurd hproc (by simp [Point.proc])
    | restart _ hpt =>
      rw [hpt] at hproc
      exact absurd hproc (by simp [Point.proc])
  | failed he hcaller hd =>
    cases he with
    | execute _ _ hpt => exact absurd trivial hcaller
    | boot _ hpt =>
      rw [hpt] at hproc
      exact absurd hproc (by simp [Point.proc])
    | restart _ hpt =>
      rw [hpt] at hproc
      exact absurd hproc (by simp [Point.proc])
  | halted he hp hk =>
    have hends : e.ends = true := by rcases he with rfl | rfl <;> rfl
    have hcC : C ≠ k.cur := fun hc => hC ⟨hends, hc.symm⟩
    obtain ⟨p, l', rfl, hsaved, hpar⟩ := h.based.below h.inv h.inv.sched hlive (hhigh hends)
    rw [hlive, List.erase_cons_head] at hinv ⊢
    rcases syscallHalt_cases k with ⟨hroot, -⟩ | ⟨-, hfin⟩
    · have hp0 := h.inv.range k.scheduledTerm p (by rw [hlive]; simp)
      omega
    · rw [hpar, ← hk] at hfin
      exact h.halt hinv hlive hcC hsaved hfin

end Bracket

/-- The program that `P` executes opens the bracket. -/
lemma Bracket.opened {img : Image} {m₀ m₁ : Machine} {C : ℤ} {command : Str} {buf : Buf}
    (hinv : Inv m₀.kernel m₀.live) (hbased : Based m₀.live)
    (hs : m₀.step img (.execute command buf) = some m₁)
    (hentering : m₁.kernel.ctl.point = .entering C) :
    3 ≤ C ∧ Bracket m₀.kernel.scheduledTerm m₀.kernel.cur C (m₀.kernel.pcbOf m₀.kernel.cur)
      m₁.kernel m₁.live := by
  obtain ⟨k₁, hk₁, -⟩ := Option.map_eq_some_iff.1 hs
  obtain ⟨P, hP⟩ : ∃ P, m₀.kernel.ctl.point = .user P := by
    cases step_cases hk₁ with
    | execute hpt => exact ⟨_, hpt⟩
  obtain ⟨l, hlive, hcur⟩ := hinv.proc (p := P) (by rw [hP]; rfl)
  have hsettled : ¬m₀.kernel.Exposed := by
    rintro ⟨c, hc, -⟩
    rw [hP] at hc
    exact absurd hc (by simp [Point.entering?])
  have horderly := hbased.orderly hinv hsettled (fun he => absurd he (by simp [Event.ends])) hk₁
  have hinv₁ := hinv.step horderly hs
  have heff := step_effect hs
  obtain ⟨k, live⟩ := m₀
  obtain ⟨k', live'⟩ := m₁
  dsimp only at hinv hbased hentering hP hlive hcur hsettled hinv₁ heff ⊢
  subst hcur
  cases heff with
  | same _ _ hmoves =>
    -- the processor would have stayed in the program of `P`
    generalize k'.ctl = x' at hmoves hentering
    generalize k.ctl = x at hmoves hP
    cases hmoves with
    | refl =>
      rw [hP] at hentering
      exact absurd hentering (by simp)
    | within hx hx' hold hruns =>
      rw [hentering] at hold
      exact absurd hold (by simp [Point.entering?])
  | called he => exact absurd he (by simp [Event.call?])
  | tick he => exact absurd he (by simp)
  | @created caller cmd _ d i he hd hi hfits hc =>
    have hcC : (i : ℤ) = C := by
      rw [hc.ctl] at hentering
      exact Point.entering.inj hentering
    subst hcC
    have hhigh := hbased.slot_high hinv hi
    have hnew : k'.pcbOf i = newPcb (k.pcbOf i) i k.cur caller (parseCommand cmd).args := by
      rw [hc.pcbOf, if_pos rfl]
    refine ⟨by omega, hinv₁, hbased.push _ hinv.sched _, ?_, ⟨[], l, ?_⟩, ?_, ?_⟩
    · rintro ⟨c, hc', hlink, -⟩
      rw [hentering] at hc'
      obtain rfl : (i : ℤ) = c := Option.some.inj hc'
      cases he with
      | execute _ _ hpt =>
        rw [hnew] at hlink
        exact hlink trivial
    · rw [Function.update_self, hlive]
      rfl
    · rw [hc.pcbOf, if_neg]
      intro hcur
      refine hinv.not_mem_of_free (freeSlot_spec hi).2.1 k.scheduledTerm ?_
      rw [hlive, hcur]
      exact List.mem_cons_self ..
    · rw [hnew]
      exact setupFd_closable _
  | @faulted caller _ _ d i he hd hi hfits hk' =>
    obtain ⟨c, rfl, hc⟩ := hk'
    cases he with
    | execute _ _ hpt =>
      have hraise : c.point = .faulted _ _ := hc _ rfl
      rw [show c.point = .entering C from hentering] at hraise
      exact absurd hraise (by simp)
  | failed he hcaller hd =>
    cases he with
    | execute _ _ hpt => exact absurd trivial hcaller
  | halted he => exact absurd he (by simp)

/-! ### The child comes to its end -/

/-- A run of the machine around a child `C`.  The kernel boots and comes, in order, to a state
`m₀` in which the base shells have the pids 0, 1 and 2; a process executes `C`; in the run that
follows no base shell halts and every step meets `ok`; then `C` halts. -/
structure BracketRun (img : Image) (ok : Event → Machine → Prop) (C : ℤ) (m₀ m₁ m₂ m₃ : Machine) :
    Prop where
  start : ∃ l pg vram mem, Runs.Reach (Machine.step img) (fun e m => Orderly img e m.kernel)
    (bootMachine l pg vram mem) m₀
  based : Based m₀.live
  execute : ∃ command buf, m₀.step img (.execute command buf) = some m₁
  entering : m₁.kernel.ctl.point = .entering C
  between : Runs.Reach (Machine.step img) (fun e m =>
    ¬(e.ends ∧ 0 ≤ m.kernel.cur ∧ m.kernel.cur ≤ 2) ∧ ¬(e.ends ∧ m.kernel.cur = C) ∧ ok e m) m₁ m₂
  halt : ∃ e : Event, e.ends ∧ m₂.kernel.cur = C ∧ m₂.step img e = some m₃

/-- After the halt of `C`, the process `P` of the terminal `t` is back: the processor is set up
for it, its process control block is the one of the state `m₀`, the slot and the descriptors of
`C` are free, and nothing of another process or terminal was changed since the state `m₂`. -/
structure Returned (m₀ m₂ m₃ : Machine) (t : ℕ) (P C : ℤ) : Prop where
  point : m₃.kernel.ctl = ⟨.user P, P⟩
  terminal : m₃.kernel.scheduledTerm = t ∧ (m₃.kernel.terms t).pid = P
  cpu : CpuFor m₃.kernel P
  parent : m₃.kernel.pcbOf P = m₀.kernel.pcbOf P
  slot : m₃.kernel.pid C = 0
  closed : ∀ i, 2 ≤ i → i < 8 → ((m₃.kernel.pcbOf C).fdArr i).flags = 0
  pcbs : ∀ q, q ≠ C → m₃.kernel.pcbOf q = m₂.kernel.pcbOf q
  terms : ∀ s, s ≠ t → m₃.kernel.terms s = m₂.kernel.terms s
  slots : ∀ i, i ≠ C → m₃.kernel.pid i = m₂.kernel.pid i

/-- A step that ends a process is a call of `syscall_halt`. -/
lemma step_of_ends {img : Image} {e : Event} {k k' : Kernel} (hends : e.ends)
    (hs : step img e k = some k') : k' = k.syscallHalt := by
  cases step_cases hs with
  | halt => rfl
  | raisedHalt => rfl
  | _ => exact absurd hends (by simp [Event.ends])

/-- The halt of `C` closes the bracket. -/
lemma Bracket.closes {img : Image} {e : Event} {t : ℕ} {P C : ℤ} {m₀ m₂ m₃ : Machine}
    (h : Bracket t P C (m₀.kernel.pcbOf P) m₂.kernel m₂.live) (hC : 3 ≤ C) (hends : e.ends)
    (hcur : m₂.kernel.cur = C) (hs : m₂.step img e = some m₃) : Returned m₀ m₂ m₃ t P C := by
  obtain ⟨k', hk, rfl⟩ := Option.map_eq_some_iff.1 hs
  obtain rfl := step_of_ends hends hk
  obtain ⟨k, live⟩ := m₂
  dsimp only at h hcur ⊢
  subst hcur
  obtain ⟨⟨l, hlive⟩, -⟩ := h.cur_top
  obtain rfl := h.sched_of_cur h.child_mem rfl
  -- `C` is on top of its stack, and `P` is below it
  obtain ⟨p, l', rfl, hsaved, hparent⟩ := h.based.below h.inv h.inv.sched hlive hC
  obtain rfl : p = P := by
    obtain ⟨above, below, hstack⟩ := h.stack
    have hnodup := h.inv.nodup k.scheduledTerm
    rw [hstack] at hlive hnodup
    cases above with
    | nil => exact ((List.cons.inj (List.cons.inj hlive).2).1).symm
    | cons a above =>
      obtain rfl := (List.cons.inj hlive).1
      refine absurd ?_ (List.nodup_cons.1 hnodup).1
      exact List.mem_append_right _ (List.mem_cons_self ..)
  have hid : (k.pcbOf k.cur).processId = k.cur :=
    (h.inv.stacked k.scheduledTerm).processId h.child_mem
  rcases syscallHalt_cases k with ⟨hroot, -⟩ | ⟨hne, hfin⟩
  · have hrange := h.inv.range k.scheduledTerm p h.parent_mem
    omega
  rw [hparent] at hfin
  obtain ⟨fds, hpcb⟩ := hfin.pcbOf
  have hother : ∀ q, q ≠ k.cur → k.syscallHalt.pcbOf q = k.pcbOf q := fun q hq => by
    rw [hpcb, if_neg hq]
  have hfinish : k.syscallHalt = Kernel.haltFinish { k with thisPcb := pcbAddr k.cur } :=
    if_neg hne
  obtain ⟨hthis, hesp, hctl, hclosed⟩ :=
    haltFinish_back { k with thisPcb := pcbAddr k.cur } k.cur rfl h.closable
  rw [← hfinish] at hthis hesp hctl hclosed
  refine ⟨?_, ⟨hfin.scheduledTerm, ?_⟩, ⟨?_, ?_, ?_⟩, ?_, ?_, hclosed, hother, hfin.terms, ?_⟩
  · exact hctl.trans (congrArg Caller.resume hsaved)
  · rw [hfin.termPid, if_pos rfl]
  · exact hthis.trans (congrArg pcbAddr hparent)
  · exact hesp.trans (congrArg stackBase hparent)
  · rw [hfin.paging]
    exact setUserPage_addr k p
  · rw [hother p (Ne.symm h.cur_ne_parent)]
    exact h.parent
  · rw [hfin.pid, hid, Function.update_self]
  · intro i hi
    rw [hfin.pid, hid, Function.update_of_ne hi]

/-- **Execute and halt bracket a child.**  When `C` never opens an entry of a strange file type
in a descriptor without a driver, the process that executed `C` is back after the halt of `C`,
whatever the descendants of `C` and the other terminals have done in between. -/
theorem execute_brackets (img : Image) (C : ℤ) (m₀ m₁ m₂ m₃ : Machine)
    (h : BracketRun img (fun e m => m.kernel.cur = C → OpensDriver img e m.kernel) C m₀ m₁ m₂ m₃) :
    Returned m₀ m₂ m₃ m₀.kernel.scheduledTerm m₀.kernel.cur C := by
  obtain ⟨l, pg, vram, mem, hstart⟩ := h.start
  have hinv := inv_of_reach (fun _ _ ho => ho) (inv_boot l pg vram mem) hstart
  obtain ⟨command, buf, hexec⟩ := h.execute
  obtain ⟨hC, hopened⟩ := Bracket.opened hinv h.based hexec h.entering
  have hopen : Bracket m₀.kernel.scheduledTerm m₀.kernel.cur C (m₀.kernel.pcbOf m₀.kernel.cur)
      m₂.kernel m₂.live := by
    refine h.between.invariant (P := fun m => Bracket m₀.kernel.scheduledTerm m₀.kernel.cur C
      (m₀.kernel.pcbOf m₀.kernel.cur) m.kernel m.live) hopened ?_
    exact fun e m m' hm hok hs => hm.step hok.1 hok.2.1 hok.2.2 hs
  obtain ⟨e, hends, hcur, hs⟩ := h.halt
  exact hopen.closes hC hends hcur hs

/-- A run of the program that the last shell executes after the boot: it opens a file and executes
another program, which halts; the other terminals get their ticks, and the program closes the
file. -/
def nestedRun : List Event :=
  [.enter, .call (.openFile fishName), .execute shellName noBuf, .enter, .halt, .tick, .tick,
    .tick, .call (.close 2)]

/-- Then the program halts. -/
theorem execute_brackets_nested :
    ∃ m₀ m₁ m₂ m₃, Runs.run (Machine.step sampleImage) bootShells sampleMachine = some m₀ ∧
      m₀.step sampleImage (.execute shellName noBuf) = some m₁ ∧
      Runs.run (Machine.step sampleImage) nestedRun m₁ = some m₂ ∧
      m₂.step sampleImage .halt = some m₃ ∧
      Returned m₀ m₂ m₃ m₀.kernel.scheduledTerm m₀.kernel.cur 3 := by
  let ok (e : Event) (m : Machine) := ¬(e.ends ∧ 0 ≤ m.kernel.cur ∧ m.kernel.cur ≤ 2) ∧
    ¬(e.ends ∧ m.kernel.cur = 3) ∧ (m.kernel.cur = 3 → OpensDriver sampleImage e m.kernel)
  have hrun : (Runs.run (Runs.guarded (Machine.step sampleImage)
      fun e m => Orderly sampleImage e m.kernel) bootShells sampleMachine).any (fun m₀ =>
        Based m₀.live ∧ (m₀.step sampleImage (.execute shellName noBuf)).any (fun m₁ =>
          m₁.kernel.ctl.point.entering? = some 3 ∧
          (Runs.run (Runs.guarded (Machine.step sampleImage) ok) nestedRun m₁).any (fun m₂ =>
            m₂.kernel.cur = 3 ∧ (m₂.step sampleImage .halt).isSome))) = true := by
    decide +kernel
  obtain ⟨m₀, h₀, hrest⟩ := (Option.any_eq_true _ _).1 hrun
  obtain ⟨hbased, hrest⟩ := of_decide_eq_true hrest
  obtain ⟨m₁, h₁, hrest⟩ := (Option.any_eq_true _ _).1 hrest
  obtain ⟨hentering, hrest⟩ := of_decide_eq_true hrest
  obtain ⟨m₂, h₂, hrest⟩ := (Option.any_eq_true _ _).1 hrest
  obtain ⟨hcur, hrest⟩ := of_decide_eq_true hrest
  obtain ⟨m₃, h₃⟩ := Option.isSome_iff_exists.1 hrest
  refine ⟨m₀, m₁, m₂, m₃, Runs.run_of_guarded h₀, h₁, Runs.run_of_guarded h₂, h₃, ?_⟩
  refine execute_brackets sampleImage 3 m₀ m₁ m₂ m₃ ⟨?_, hbased, ⟨_, _, h₁⟩, ?_, ?_, ?_⟩
  · exact ⟨sampleLayout, samplePaging, _, _, Runs.reach_of_guarded h₀⟩
  · exact Point.eq_entering hentering
  · exact Runs.reach_of_guarded h₂
  · exact ⟨.halt, rfl, hcur, h₃⟩

/-- The sample image with a strange file type in the entry `rtc`. -/
def strangeImage : Image where
  numDirEntries := 4
  numInodes := sampleImage.numInodes
  numDataBlks := sampleImage.numDataBlks
  dirEntries i :=
    if i = 3 then sampleEntry rtcName length_rtcName 7 0 else sampleImage.dirEntries i
  inodes := sampleImage.inodes
  blocks := sampleImage.blocks

/-- The program opens the entry of a strange file type: the call of its `open` faults, and so
does the call of its `close` when the exception handler halts the program, after its three texts.
The handler is back on the stack of the parent, which it halts next. -/
theorem parent_raised :
    ∃ m₀ m₁ m₂ m₃, BracketRun strangeImage (fun _ _ => True) 3 m₀ m₁ m₂ m₃ ∧
      m₃.kernel.ctl.point.raising? = some 2 ∧
      ¬Returned m₀ m₂ m₃ m₀.kernel.scheduledTerm m₀.kernel.cur 3 := by
  let ok (e : Event) (m : Machine) := ¬(e.ends ∧ 0 ≤ m.kernel.cur ∧ m.kernel.cur ≤ 2) ∧
    ¬(e.ends ∧ m.kernel.cur = 3) ∧ True
  let es := [Event.enter, .begin (.openFile rtcName), .finish, .report, .report, .report]
  have hrun : (Runs.run (Runs.guarded (Machine.step strangeImage)
      fun e m => Orderly strangeImage e m.kernel) bootShells sampleMachine).any (fun m₀ =>
        Based m₀.live ∧ (m₀.step strangeImage (.execute shellName noBuf)).any (fun m₁ =>
          m₁.kernel.ctl.point.entering? = some 3 ∧
          (Runs.run (Runs.guarded (Machine.step strangeImage) ok) es m₁).any (fun m₂ =>
            m₂.kernel.cur = 3 ∧ (m₂.step strangeImage .raisedHalt).any (fun m₃ =>
              m₃.kernel.ctl.point.raising? = some 2)))) = true := by
    decide +kernel
  obtain ⟨m₀, h₀, hrest⟩ := (Option.any_eq_true _ _).1 hrun
  obtain ⟨hbased, hrest⟩ := of_decide_eq_true hrest
  obtain ⟨m₁, h₁, hrest⟩ := (Option.any_eq_true _ _).1 hrest
  obtain ⟨hentering, hrest⟩ := of_decide_eq_true hrest
  obtain ⟨m₂, h₂, hrest⟩ := (Option.any_eq_true _ _).1 hrest
  obtain ⟨hcur, hrest⟩ := of_decide_eq_true hrest
  obtain ⟨m₃, h₃, hrest⟩ := (Option.any_eq_true _ _).1 hrest
  have hraising := of_decide_eq_true hrest
  refine ⟨m₀, m₁, m₂, m₃, ⟨?_, hbased, ⟨_, _, h₁⟩, ?_, ?_, ?_⟩, hraising, fun hback => ?_⟩
  · exact ⟨sampleLayout, samplePaging, _, _, Runs.reach_of_guarded h₀⟩
  · exact Point.eq_entering hentering
  · exact Runs.reach_of_guarded h₂
  · exact ⟨.raisedHalt, rfl, hcur, h₃⟩
  · rw [hback.point] at hraising
    exact absurd hraising (by simp [Point.raising?])

end WnajOS
