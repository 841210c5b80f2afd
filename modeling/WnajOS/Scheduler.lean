import WnajOS.Library.Runs
import WnajOS.ProcessSteps

/-!
# The three stacks of processes

The abstract scheduler is three stacks of processes, one for each terminal, with the running
process on top; the processes below it wait in `syscall_execute`.  This is the ledger `live`
of the machine.  `Inv` says how the kernel represents it: every process of a stack holds its
slot, its process control block names it and the caller it returns to, and the terminal's pid
is the process on top, or that of a base shell that is being restarted.

The kernel does not keep `Inv` in every run.  A base shell that halts frees its slot and lets
interrupts in before it takes a new one, while the terminal and the saved context still name
the old one.  `Orderly` are the conditions on a step under which `Inv` is kept.
-/

namespace WnajOS

/-! ### Conditions on a step -/

/-- The command the event passes to `syscall_execute`. -/
def Event.command? : Event → Option (Str × Buf)
  | .execute command buf => some (command, buf)
  | .bootExec buf => some (shellName, buf)
  | .restartExec buf => some (shellName, buf)
  | _ => none

/-- The executable the event starts, if its command names one. -/
def Event.program? (img : Image) (e : Event) : Option DirEntry :=
  match e.command? with
  | some (command, buf) => isValidExec img (parseCommand command).fileName buf
  | none => none

/-- The kernel itself executes a shell. -/
def Event.isOwn : Event → Bool
  | .bootExec _ => true
  | .restartExec _ => true
  | _ => false

/-- A tick of the PIT. -/
def Event.isTick : Event → Bool
  | .tick => true
  | _ => false

/-- The slot a new process takes is not the one another terminal still names. -/
def NoReuse (img : Image) (e : Event) (k : Kernel) : Prop :=
  (e.program? img).isSome → ∀ i ∈ freeSlot k.pid, ∀ t < numTtys, t ≠ k.scheduledTerm →
    (k.terms t).pid ≠ i

/-- A process that halts and has a parent was executed by a program. -/
def Returns (e : Event) (k : Kernel) : Prop :=
  e.ends → (k.pcbOf k.cur).parentId ≠ -1 → (k.pcbOf k.cur).saved.IsLinkage

/-- The shells that the kernel executes start. -/
def ShellStarts (img : Image) (e : Event) (k : Kernel) : Prop :=
  e.isOwn → (∃ d ∈ e.program? img, LoadFits img d) ∧ (freeSlot k.pid).isSome

/-- No tick comes between the `sti` and the `iret` of a shell that the kernel executes on the
stack of another process; some of these ticks would do no harm. -/
def TickSafe (e : Event) (k : Kernel) : Prop := e.isTick → ¬k.Exposed

/-- The program started fits into the program page. -/
def Fits (img : Image) (e : Event) : Prop := ∀ d ∈ e.program? img, LoadFits img d

instance (img : Image) (e : Event) (k : Kernel) : Decidable (NoReuse img e k) :=
  inferInstanceAs (Decidable (_ → ∀ i ∈ freeSlot k.pid, ∀ t < numTtys, _ → _))

instance (e : Event) (k : Kernel) : Decidable (Returns e k) :=
  inferInstanceAs (Decidable (_ → _ → _))

instance (img : Image) (e : Event) (k : Kernel) : Decidable (ShellStarts img e k) :=
  inferInstanceAs (Decidable (_ → (∃ d ∈ e.program? img, _) ∧ _))

instance (e : Event) (k : Kernel) : Decidable (TickSafe e k) :=
  inferInstanceAs (Decidable (_ → _))

instance (img : Image) (e : Event) : Decidable (Fits img e) :=
  inferInstanceAs (Decidable (∀ d ∈ e.program? img, _))

/-- The conditions under which a step keeps the processes in order. -/
structure Orderly (img : Image) (e : Event) (k : Kernel) : Prop where
  noReuse : NoReuse img e k
  returns : Returns e k
  shellStarts : ShellStarts img e k
  tickSafe : TickSafe e k

instance (img : Image) (e : Event) (k : Kernel) : Decidable (Orderly img e k) :=
  decidable_of_iff (NoReuse img e k ∧ Returns e k ∧ ShellStarts img e k ∧ TickSafe e k)
    ⟨fun ⟨h₁, h₂, h₃, h₄⟩ => ⟨h₁, h₂, h₃, h₄⟩, fun h => ⟨h.1, h.2, h.3, h.4⟩⟩

lemma Starts.program {img : Image} {k : Kernel} {e : Event} {caller : Caller} {command : Str}
    {buf : Buf} (h : Starts k e caller command buf) :
    e.program? img = isValidExec img (parseCommand command).fileName buf := by
  cases h <;> rfl

lemma Starts.isOwn {k : Kernel} {e : Event} {caller : Caller} {command : Str} {buf : Buf}
    (h : Starts k e caller command buf) (hc : ¬caller.IsLinkage) : e.isOwn = true := by
  cases h with
  | execute => exact absurd trivial hc
  | boot => rfl
  | restart => rfl

/-! ### The stacks of processes -/

/-- The process control block `b` of the process `c`, with the processes `below` it on its
terminal: if a program executed `c`, it is the one right below, and `c` returns to it unless
the slot of `c` makes it a base shell. -/
structure Started (b : Pcb) (c : ℤ) (below : List ℤ) : Prop where
  linked : ∀ p, b.saved = .linkage p →
    below.head? = some p ∧ (b.parentId = -1 ∨ b.parentId = p)
  nested : ∀ p, below.head? = some p → 3 ≤ c → b.saved = .linkage p ∧ b.parentId = p

/-- A stack of processes with their process control blocks. -/
def Stacked (f : ℤ → Pcb) : List ℤ → Prop
  | [] => True
  | c :: l => (f c).processId = c ∧ Started (f c) c l ∧ Stacked f l

/-- What a stack depends on. -/
lemma Stacked.congr {f g : ℤ → Pcb} {l : List ℤ} (h : Stacked f l)
    (hfg : ∀ c ∈ l, (g c).processId = (f c).processId ∧ (g c).parentId = (f c).parentId ∧
      (g c).saved = (f c).saved) : Stacked g l := by
  induction l with
  | nil => trivial
  | cons c l ih =>
    obtain ⟨hid, hstart, hl⟩ := h
    obtain ⟨h1, h2, h3⟩ := hfg c (List.mem_cons_self ..)
    refine ⟨h1.trans hid, ⟨?_, ?_⟩, ih hl fun q hq => hfg q (List.mem_cons_of_mem _ hq)⟩
    · rw [h2, h3]
      exact hstart.linked
    · rw [h2, h3]
      exact hstart.nested

lemma Stacked.processId {f : ℤ → Pcb} {l : List ℤ} (h : Stacked f l) {c : ℤ} (hc : c ∈ l) :
    (f c).processId = c := by
  induction l with
  | nil => exact absurd hc (by simp)
  | cons q l ih =>
    rcases List.mem_cons.1 hc with rfl | hc
    · exact h.1
    · exact ih h.2.2 hc

/-! ### The invariant -/

/-- The code that runs on a terminal, or that its process resumes. -/
def Kernel.context (k : Kernel) (t : ℕ) : Ctl :=
  if t = k.scheduledTerm then k.ctl else (k.pcbOf (k.terms t).pid).scheduled

@[simp] lemma Kernel.context_self (k : Kernel) : k.context k.scheduledTerm = k.ctl := if_pos rfl

lemma Kernel.context_of_ne (k : Kernel) {t : ℕ} (h : t ≠ k.scheduledTerm) :
    k.context t = (k.pcbOf (k.terms t).pid).scheduled := if_neg h

/-- The state of a terminal: its process is the top of its stack, or a base shell is being
restarted in a slot that is free, or it never had a process. -/
inductive TermOk (k : Kernel) (live : Ledger) (t : ℕ) : Prop
  | live {c : ℤ} {l : List ℤ} (hlive : live t = c :: l) (hpid : (k.terms t).pid = c)
      (hctx : (k.context t).point.proc = some c) : TermOk k live t
  | restart {q : ℤ} (hpid : (k.terms t).pid = q) (hrange : 0 ≤ q ∧ q < 6) (hfree : k.pid q = 0)
      (hid : (k.pcbOf q).processId = q) (hbase : live t ≠ [] → q ≤ 2)
      (hctx : (k.context t).point = .restart q) : TermOk k live t
  | unused (hpid : (k.terms t).pid = -1) (hlive : live t = [])
      (hctx : t = k.scheduledTerm → k.ctl.point = .idle ∨ k.ctl.point = .boot) : TermOk k live t

/-- A process that waits to be entered waits on the stack of the program that executed it, or
on its own. -/
def Parked (k : Kernel) (t : ℕ) : Prop :=
  (k.terms t).pid ≠ -1 → (k.context t).point.entering?.isSome →
    (k.pcbOf (k.terms t).pid).saved.IsLinkage ∨ (k.context t).stack = (k.terms t).pid

/-- The processor is set up for the process `p`. -/
structure CpuFor (k : Kernel) (p : ℤ) : Prop where
  thisPcb : k.thisPcb = pcbAddr p
  esp0 : k.esp0 = stackBase p
  page : (k.paging.pageDirectory userPageIndex).addr = userFrame p

lemma setUserPage_addr (k : Kernel) (p : ℤ) :
    ((k.setUserPage p).paging.pageDirectory userPageIndex).addr = userFrame p := by
  rw [Kernel.setUserPage]
  dsimp only
  rw [setPdeAddr, Function.update_self]

/-- The kernel represents the stacks of processes. -/
structure Inv (k : Kernel) (live : Ledger) : Prop where
  sched : k.scheduledTerm < numTtys
  range : ∀ t, ∀ c ∈ live t, 0 ≤ c ∧ c < 6
  held : ∀ t, ∀ c ∈ live t, k.pid c = 1
  nodup : ∀ t, (live t).Nodup
  disjoint : ∀ s t, s ≠ t → ∀ c ∈ live s, c ∉ live t
  stacked : ∀ t, Stacked k.pcbOf (live t)
  term : ∀ t, TermOk k live t
  distinct : ∀ s t, s ≠ t → (k.terms s).pid = (k.terms t).pid → (k.terms s).pid = -1
  outside : ∀ t, numTtys ≤ t → (k.terms t).pid = -1
  parked : ∀ t, t ≠ k.scheduledTerm → Parked k t
  cpu : ∀ p, k.ctl.point.runs = some p → CpuFor k p

/-- Where a live process runs, it is the one of the terminal. -/
lemma TermOk.proc {k : Kernel} {live : Ledger} (h : TermOk k live k.scheduledTerm) {p : ℤ}
    (hp : k.ctl.point.proc = some p) : ∃ l, live k.scheduledTerm = p :: l ∧ k.cur = p := by
  cases h with
  | live hlive hpid hctx =>
    rw [k.context_self, hp] at hctx
    obtain rfl := Option.some.inj hctx
    exact ⟨_, hlive, hpid⟩
  | restart hpid hrange hfree hid hbase hctx =>
    rw [k.context_self] at hctx
    rw [hctx] at hp
    exact absurd hp (by simp [Point.proc])
  | unused hpid hlive hctx =>
    rcases hctx rfl with hc | hc
    · rw [hc] at hp
      exact absurd hp (by simp [Point.proc])
    · rw [hc] at hp
      exact absurd hp (by simp [Point.proc])

namespace Inv

variable {k k' : Kernel} {live : Ledger}

/-! ### Reading the invariant at a point of the code -/

lemma proc (h : Inv k live) {p : ℤ} (hp : k.ctl.point.proc = some p) :
    ∃ l, live k.scheduledTerm = p :: l ∧ k.cur = p := (h.term _).proc hp

/-- Where a program is about to be entered, it is that of the terminal. -/
lemma entering (h : Inv k live) {c : ℤ} (hc : k.ctl.point.entering? = some c) : k.cur = c := by
  have hproc : k.ctl.point.proc = some c := by
    cases hpt : k.ctl.point with
    | entering q =>
      rw [hpt] at hc
      exact hc
    | _ =>
      rw [hpt] at hc
      exact absurd hc (by simp [Point.entering?])
  exact (h.proc hproc).choose_spec.2

/-- The processor is never lost. -/
lemma not_lost (h : Inv k live) : k.ctl.point ≠ .lost := by
  intro hlost
  cases h.term k.scheduledTerm with
  | live hlive hpid hctx =>
    rw [k.context_self, hlost] at hctx
    exact absurd hctx (by simp [Point.proc])
  | restart hpid hrange hfree hid hbase hctx =>
    rw [k.context_self, hlost] at hctx
    exact absurd hctx (by simp)
  | unused hpid hlive hctx =>
    rw [hlost] at hctx
    exact absurd (hctx rfl) (by simp)

/-- A live process is named by no terminal but its own. -/
lemma pid_ne (h : Inv k live) {s t : ℕ} {p : ℤ} (hp : p ∈ live s) (hst : t ≠ s) :
    (k.terms t).pid ≠ p := by
  intro hpid
  cases h.term t with
  | @live c l hlive hpid' hctx =>
    obtain rfl : c = p := hpid'.symm.trans hpid
    exact h.disjoint s t (Ne.symm hst) c hp (hlive ▸ List.mem_cons_self ..)
  | @restart q hpid' hrange hfree hid hbase hctx =>
    obtain rfl : q = p := hpid'.symm.trans hpid
    have hheld := h.held s q hp
    rw [hfree] at hheld
    exact absurd hheld (by decide)
  | unused hpid' hlive hctx =>
    have hrange := h.range s p hp
    rw [← hpid, hpid'] at hrange
    omega

/-! ### Steps that leave the processes alone -/

/-- A terminal whose pid, stack and slots are the same is in the same state. -/
lemma term_congr (h : Inv k live) {t : ℕ} {live' : Ledger} (hlive : live' t = live t)
    (hpid : (k'.terms t).pid = (k.terms t).pid)
    (hslot : ∀ q, (k.terms t).pid = q → k.pid q = 0 → k'.pid q = 0)
    (hid : ∀ q, (k.terms t).pid = q → (k'.pcbOf q).processId = (k.pcbOf q).processId)
    (hctx : (k.terms t).pid ≠ -1 → (k'.context t).point = (k.context t).point ∨
      ∃ p, (k.context t).point.proc = some p ∧ (k'.context t).point.proc = some p)
    (hunused : (k.terms t).pid = -1 → t = k'.scheduledTerm →
      k'.ctl.point = .idle ∨ k'.ctl.point = .boot) : TermOk k' live' t := by
  cases h.term t with
  | @live c l hl hp hc =>
    have hrange := h.range t c (hl ▸ List.mem_cons_self ..)
    refine .live (hlive.trans hl) (hpid.trans hp) ?_
    rcases hctx (by rw [hp]; omega) with heq | ⟨p, hx, hx'⟩
    · rw [heq]
      exact hc
    · obtain rfl := Option.some.inj (hx.symm.trans hc)
      exact hx'
  | @restart q hp hrange hfree hq hbase hc =>
    refine .restart (hpid.trans hp) hrange (hslot q hp hfree) ((hid q hp).trans hq)
      (by rw [hlive]; exact hbase) ?_
    rcases hctx (by rw [hp]; omega) with heq | ⟨p, hx, -⟩
    · rw [heq]
      exact hc
    · rw [hc] at hx
      exact absurd hx (by simp [Point.proc])
  | unused hp hl hc => exact .unused (hpid.trans hp) (hlive.trans hl) (hunused hp)

/-- A step that leaves the processes alone. -/
lemma same (h : Inv k live) (hs : SameProcs k k') (hm : k.ctl.Moves k'.ctl) :
    Inv k' live := by
  have hpcb : ∀ q, (k'.pcbOf q).processId = (k.pcbOf q).processId ∧
      (k'.pcbOf q).parentId = (k.pcbOf q).parentId ∧ (k'.pcbOf q).saved = (k.pcbOf q).saved ∧
      (k'.pcbOf q).scheduled = (k.pcbOf q).scheduled := by
    intro q
    obtain ⟨fds, hq⟩ := hs.pcbOf q
    rw [hq]
    exact ⟨rfl, rfl, rfl, rfl⟩
  refine ⟨by rw [hs.scheduledTerm]; exact h.sched, h.range, by rw [hs.pid]; exact h.held,
    h.nodup, h.disjoint,
    fun t => (h.stacked t).congr fun c _ => ⟨(hpcb c).1, (hpcb c).2.1, (hpcb c).2.2.1⟩,
    fun t => ?_, ?_, ?_, fun t ht => ?_, ?_⟩
  · refine h.term_congr rfl (hs.termPid t) (fun q _ hq => by rw [hs.pid]; exact hq)
      (fun q _ => (hpcb q).1) (fun _ => ?_) (fun hpid ht => ?_)
    · by_cases ht : t = k.scheduledTerm
      · subst ht
        rw [k.context_self, ← hs.scheduledTerm, k'.context_self]
        exact hm.point
      · rw [k.context_of_ne ht, k'.context_of_ne (hs.scheduledTerm ▸ ht), hs.termPid, (hpcb _).2.2.2]
        exact Or.inl rfl
    · -- a terminal without a process is at `idle` or `boot`, and these do not move
      rw [hs.scheduledTerm] at ht
      subst ht
      cases h.term k.scheduledTerm with
      | live hl hp hc =>
        have hrange := h.range _ _ (hl ▸ List.mem_cons_self ..)
        omega
      | restart hp hrange hfree hq hbase hc => omega
      | unused hp hl hc =>
        have hcase := hc rfl
        generalize k'.ctl = x' at hm ⊢
        generalize k.ctl = x at hm hcase
        cases hm with
        | refl => exact hcase
        | within hx hx' _ hruns =>
          rcases hcase with hx₁ | hx₁
          · rw [hx₁] at hx
            exact absurd hx (by simp [Point.proc])
          · rw [hx₁] at hx
            exact absurd hx (by simp [Point.proc])
  · intro s t hst
    rw [hs.termPid, hs.termPid]
    exact h.distinct s t hst
  · intro t ht
    rw [hs.termPid]
    exact h.outside t ht
  · rw [hs.scheduledTerm] at ht
    have hpark := h.parked t ht
    have hctx : k'.context t = k.context t := by
      rw [k.context_of_ne ht, k'.context_of_ne (hs.scheduledTerm ▸ ht), hs.termPid, (hpcb _).2.2.2]
    rw [Parked] at hpark ⊢
    rw [hctx, hs.termPid, (hpcb _).2.2.1]
    exact hpark
  · -- a process that runs now ran before
    intro p hp
    have hruns : k.ctl.point.runs = some p := by
      generalize k'.ctl = x' at hm hp
      generalize k.ctl = x at hm
      cases hm with
      | refl => exact hp
      | within hx hx' _ hruns =>
        rcases hruns with hnone | hsome
        · rw [hnone] at hp
          exact absurd hp (by simp)
        · have hx'' := (Point.proc_of_runs hp).symm.trans hx'
          obtain rfl := Option.some.inj hx''
          exact hsome
    obtain ⟨h1, h2, h3⟩ := h.cpu p hruns
    exact ⟨hs.thisPcb.trans h1, hs.esp0.trans h2, by rw [hs.pageDirectory]; exact h3⟩

/-! ### A tick -/

omit live in
lemma kstack_of_entering {c : ℤ} (hc : k.ctl.point.entering? = some c) :
    k.kstack = k.ctl.stack := by
  rw [Kernel.kstack]
  cases hpt : k.ctl.point with
  | user p =>
    rw [hpt] at hc
    exact absurd hc (by simp [Point.entering?])
  | _ => rfl

/-- A tick that is safe leaves every process at the point of the code where it was, and on the
stack where it was unless its program runs. -/
lemma tick_context (h : Inv k live) (ht : Ticked k k') (hsafe : ¬k.Exposed) (t : ℕ)
    (hpid : (k.terms t).pid ≠ -1) : (k'.context t).point = (k.context t).point ∧
      ((k.context t).point.entering?.isSome → (k'.context t).stack = (k.context t).stack) := by
  have hne : k'.scheduledTerm ≠ k.scheduledTerm := by
    rw [ht.scheduledTerm, numTtys]
    omega
  by_cases hnext : t = k'.scheduledTerm
  · -- the next terminal resumes what its process saved
    subst hnext
    have hcur : k'.cur = (k.terms k'.scheduledTerm).pid := ht.termPid _
    rcases ht.next with ⟨hnone, -, -⟩ | ⟨-, -, -, hctl, -⟩
    · exact absurd (hcur.symm.trans hnone) hpid
    · have hother : ¬(k'.cur = k.cur ∧ k.cur ≠ -1) := by
        rintro ⟨he, -⟩
        exact hpid (h.distinct _ _ hne (hcur.symm.trans he))
      rw [k'.context_self, hctl, ht.pcbOf, if_neg hother, k.context_of_ne hne, hcur]
      exact ⟨rfl, fun _ => rfl⟩
  · rw [k'.context_of_ne hnext, ht.termPid, ht.pcbOf]
    by_cases hold : t = k.scheduledTerm
    · subst hold
      rw [if_pos ⟨rfl, hpid⟩, k.context_self]
      dsimp only
      rw [Kernel.interrupted, if_neg hsafe]
      refine ⟨rfl, fun hent => ?_⟩
      obtain ⟨c, hc⟩ := Option.isSome_iff_exists.1 hent
      exact kstack_of_entering hc
    · have hother : ¬((k.terms t).pid = k.cur ∧ k.cur ≠ -1) := by
        rintro ⟨he, -⟩
        exact hpid (h.distinct _ _ hold he)
      rw [if_neg hother, k.context_of_ne hold]
      exact ⟨rfl, fun _ => rfl⟩

lemma tick (h : Inv k live) (ht : Ticked k k') (hsafe : ¬k.Exposed) : Inv k' live := by
  have hpcb : ∀ q, (k'.pcbOf q).processId = (k.pcbOf q).processId ∧
      (k'.pcbOf q).parentId = (k.pcbOf q).parentId ∧ (k'.pcbOf q).saved = (k.pcbOf q).saved := by
    intro q
    rw [ht.pcbOf]
    split
    · rename_i hq
      rw [hq.1]
      exact ⟨rfl, rfl, rfl⟩
    · exact ⟨rfl, rfl, rfl⟩
  have hstacked : ∀ t, Stacked k'.pcbOf (live t) := fun t =>
    (h.stacked t).congr fun c _ => hpcb c
  have hterm : ∀ t, TermOk k' live t := by
    intro t
    refine h.term_congr rfl (ht.termPid t) (fun q _ hq => by rw [ht.pid]; exact hq)
      (fun q _ => (hpcb q).1) (fun hpid => ?_) (fun hpid hsched => ?_)
    · exact Or.inl (h.tick_context ht hsafe t hpid).1
    · subst hsched
      rcases ht.next with ⟨-, hctl, -⟩ | ⟨hsome, -⟩
      · exact Or.inr (by rw [hctl])
      · exact absurd ((ht.termPid _).trans hpid) hsome
  refine ⟨by rw [ht.scheduledTerm]; exact Nat.mod_lt _ (by decide), h.range,
    by rw [ht.pid]; exact h.held, h.nodup, h.disjoint, hstacked, hterm, ?_, ?_, ?_, ?_⟩
  · intro s t hst
    rw [ht.termPid, ht.termPid]
    exact h.distinct s t hst
  · intro t hout
    rw [ht.termPid]
    exact h.outside t hout
  · intro t _ hpid hent
    rw [ht.termPid] at hpid ⊢
    obtain ⟨hpt, hstack⟩ := h.tick_context ht hsafe t hpid
    rw [hpt] at hent
    rw [hstack hent, (hpcb _).2.2]
    by_cases hold : t = k.scheduledTerm
    · -- the process interrupted now
      subst hold
      rw [k.context_self] at hent ⊢
      obtain ⟨c, hc⟩ := Option.isSome_iff_exists.1 hent
      have hcur := h.entering hc
      by_contra hno
      push Not at hno
      refine hsafe ⟨c, hc, ?_⟩
      rw [← hcur]
      exact hno
    · exact h.parked t hold hpid hent
  · intro p hp
    obtain ⟨l, hlive, hcur⟩ := (hterm _).proc (Point.proc_of_runs hp)
    have hid : (k'.pcbOf p).processId = p :=
      (hstacked _).processId (hlive ▸ List.mem_cons_self ..)
    rcases ht.next with ⟨-, hctl, -⟩ | ⟨-, hthis, hesp, -, hdir⟩
    · rw [hctl] at hp
      exact absurd hp (by simp [Point.runs])
    · rw [hcur] at hthis hesp hdir
      rw [hid] at hesp hdir
      refine ⟨hthis, hesp, ?_⟩
      rw [hdir, setPdeAddr, Function.update_self]

/-! ### A new process -/

/-- What a new process control block says about the caller. -/
lemma started_new (h : Inv k live) {e : Event} {caller : Caller} {command : Str} {buf : Buf}
    {i : ℕ} {args : Buf} (he : Starts k e caller command buf) (hi : freeSlot k.pid = some i) :
    Started (newPcb (k.pcbOf i) i k.cur caller args) i (live k.scheduledTerm) := by
  obtain ⟨-, -, hfirst⟩ := freeSlot_spec hi
  cases he with
  | @execute p _ _ hpt =>
    obtain ⟨l, hlive, hcur⟩ := h.proc (p := p) (by rw [hpt]; rfl)
    rw [hlive, hcur]
    have hhead : ∀ q, (p :: l).head? = some q → p = q := fun q hq => Option.some.inj hq
    refine ⟨fun q hq => ?_, fun q hq h3 => ?_⟩
    · obtain rfl : p = q := Caller.linkage.inj hq
      refine ⟨rfl, ?_⟩
      rw [newPcb]
      dsimp only
      split
      · exact Or.inl rfl
      · exact Or.inr rfl
    · obtain rfl := hhead q hq
      exact ⟨rfl, if_neg (by omega)⟩
  | boot _ hpt =>
    have hnil : live k.scheduledTerm = [] := by
      cases h.term k.scheduledTerm with
      | live hlive hpid hctx =>
        rw [k.context_self, hpt] at hctx
        exact absurd hctx (by simp [Point.proc])
      | restart hpid hrange hfree hid hbase hctx =>
        rw [k.context_self, hpt] at hctx
        exact absurd hctx (by simp)
      | unused hpid hlive hctx => exact hlive
    rw [hnil]
    exact ⟨fun q hq => absurd hq (by simp [newPcb]), fun q hq => absurd hq (by simp)⟩
  | @restart q₀ _ hpt =>
    refine ⟨fun q hq => absurd hq (by simp [newPcb]), fun q hq h3 => ?_⟩
    -- the slot of the old shell is free and at most 2, so the new slot is too
    cases h.term k.scheduledTerm with
    | live hlive hpid hctx =>
      rw [k.context_self, hpt] at hctx
      exact absurd hctx (by simp [Point.proc])
    | @restart q₁ hpid hrange hfree hid hbase hctx =>
      have hle : q₁ ≤ 2 := by
        refine hbase fun hnil => ?_
        rw [hnil] at hq
        exact absurd hq (by simp)
      refine absurd ?_ (hfirst q₁.toNat (by omega))
      rw [Int.toNat_of_nonneg hrange.1]
      exact hfree
    | unused hpid hlive hctx =>
      rw [hlive] at hq
      exact absurd hq (by simp)

/-- A slot that is free belongs to no live process. -/
lemma not_mem_of_free (h : Inv k live) {i : ℤ} (hfree : k.pid i = 0) (t : ℕ) : i ∉ live t := by
  intro hmem
  have hheld := h.held t i hmem
  rw [hfree] at hheld
  exact absurd hheld (by decide)

lemma reuse_ne (h : Inv k live) {i : ℕ}
    (hreuse : ∀ t < numTtys, t ≠ k.scheduledTerm → (k.terms t).pid ≠ i) {t : ℕ}
    (ht : t ≠ k.scheduledTerm) : (k.terms t).pid ≠ i := by
  rcases Nat.lt_or_ge t numTtys with hlt | hge
  · exact hreuse t hlt ht
  · rw [h.outside t hge]
    omega

/-- A step that changes the scheduled terminal only: its stack becomes `l`, and what the other
terminals depend on stays. -/
lemma replace (h : Inv k live) {l : List ℤ} (hsched : k'.scheduledTerm = k.scheduledTerm)
    (hpid : ∀ t, t ≠ k.scheduledTerm → (k'.terms t).pid = (k.terms t).pid)
    (hpcb : ∀ t, t ≠ k.scheduledTerm → ∀ q, q ∈ live t ∨ q = (k.terms t).pid →
      k'.pcbOf q = k.pcbOf q)
    (hheld : ∀ t, t ≠ k.scheduledTerm → ∀ c ∈ live t, k'.pid c = 1)
    (hfree : ∀ t, t ≠ k.scheduledTerm → k.pid (k.terms t).pid = 0 → k'.pid (k.terms t).pid = 0)
    (hl : ∀ c ∈ l, (0 ≤ c ∧ c < 6) ∧ k'.pid c = 1 ∧ ∀ t, t ≠ k.scheduledTerm → c ∉ live t)
    (hnodup : l.Nodup) (hstacked : Stacked k'.pcbOf l)
    (hterm : TermOk k' (Function.update live k.scheduledTerm l) k.scheduledTerm)
    (hdistinct : ∀ t, t ≠ k.scheduledTerm → (k.terms t).pid ≠ (k'.terms k.scheduledTerm).pid)
    (hcpu : ∀ p, k'.ctl.point.runs = some p → CpuFor k' p) :
    Inv k' (Function.update live k.scheduledTerm l) := by
  have hself : Function.update live k.scheduledTerm l k.scheduledTerm = l :=
    Function.update_self ..
  have hother : ∀ t, t ≠ k.scheduledTerm → Function.update live k.scheduledTerm l t = live t :=
    fun t ht => Function.update_of_ne ht ..
  refine ⟨hsched ▸ h.sched, fun t => ?_, fun t => ?_, fun t => ?_, fun s t hst c hcs => ?_,
    fun t => ?_, fun t => ?_, fun s t hst heq => ?_, fun t ht => ?_, fun t ht => ?_, hcpu⟩
  · -- the new list of the scheduled terminal, and the lists of the others
    by_cases ht : t = k.scheduledTerm
    · rw [ht, hself]
      exact fun c hc => (hl c hc).1
    · rw [hother t ht]
      exact h.range t
  · by_cases ht : t = k.scheduledTerm
    · rw [ht, hself]
      exact fun c hc => (hl c hc).2.1
    · rw [hother t ht]
      exact hheld t ht
  · by_cases ht : t = k.scheduledTerm
    · rw [ht, hself]
      exact hnodup
    · rw [hother t ht]
      exact h.nodup t
  · -- two terminals, one of which may be the scheduled one, share no process
    by_cases hs : s = k.scheduledTerm
    · subst hs
      rw [hself] at hcs
      rw [hother t (Ne.symm hst)]
      exact (hl c hcs).2.2 t (Ne.symm hst)
    · rw [hother s hs] at hcs
      by_cases ht : t = k.scheduledTerm
      · subst ht
        rw [hself]
        exact fun hct => (hl c hct).2.2 s hs hcs
      · rw [hother t ht]
        exact h.disjoint s t hst c hcs
  · by_cases ht : t = k.scheduledTerm
    · rw [ht, hself]
      exact hstacked
    · rw [hother t ht]
      refine (h.stacked t).congr fun c hc => ?_
      rw [hpcb t ht c (Or.inl hc)]
      exact ⟨rfl, rfl, rfl⟩
  · by_cases ht : t = k.scheduledTerm
    · rw [ht]
      exact hterm
    · refine h.term_congr (hother t ht) (hpid t ht) (fun q hq hq0 => ?_) (fun q hq => ?_)
        (fun _ => ?_) (fun _ he => absurd (he.trans hsched) ht)
      · subst hq
        exact hfree t ht hq0
      · rw [hpcb t ht q (Or.inr hq.symm)]
      · rw [k'.context_of_ne (hsched ▸ ht), k.context_of_ne ht, hpid t ht, hpcb t ht _ (Or.inr rfl)]
        exact Or.inl rfl
  · -- nor a pid
    by_cases hs : s = k.scheduledTerm
    · subst hs
      rw [hpid t (Ne.symm hst)] at heq
      exact absurd heq.symm (hdistinct t (Ne.symm hst))
    · by_cases ht : t = k.scheduledTerm
      · subst ht
        rw [hpid s hs] at heq
        exact absurd heq (hdistinct s hs)
      · rw [hpid s hs, hpid t ht] at heq
        rw [hpid s hs]
        exact h.distinct s t hst heq
  · have hsched3 := h.sched
    rw [hpid t (by omega)]
    exact h.outside t ht
  · rw [hsched] at ht
    have hpark := h.parked t ht
    rw [Parked, k.context_of_ne ht] at hpark
    rw [Parked, k'.context_of_ne (hsched ▸ ht), hpid t ht, hpcb t ht _ (Or.inr rfl)]
    exact hpark

lemma create (h : Inv k live) {i : ℕ} {caller : Caller} {args : Buf}
    (hi : freeSlot k.pid = some i)
    (hreuse : ∀ t < numTtys, t ≠ k.scheduledTerm → (k.terms t).pid ≠ i)
    (hc : Created k i caller args k')
    (hstart : Started (newPcb (k.pcbOf i) i k.cur caller args) i (live k.scheduledTerm)) :
    Inv k' (Function.update live k.scheduledTerm ((i : ℤ) :: live k.scheduledTerm)) := by
  obtain ⟨hi6, hfree, -⟩ := freeSlot_spec hi
  have hnew : ∀ t, ∀ c ∈ live t, c ≠ i := by
    rintro t c hc rfl
    exact h.not_mem_of_free hfree t hc
  have hpcb : ∀ q, q ≠ (i : ℤ) → k'.pcbOf q = k.pcbOf q := fun q hq => by
    rw [hc.pcbOf, if_neg hq]
  have hself : k'.pcbOf i = newPcb (k.pcbOf i) i k.cur caller args := by
    rw [hc.pcbOf, if_pos rfl]
  have hheld : ∀ t, ∀ c ∈ live t, k'.pid c = 1 := fun t c hcm => by
    rw [hc.pid, Function.update_of_ne (hnew t c hcm)]
    exact h.held t c hcm
  have hcur : (k'.terms k.scheduledTerm).pid = i := by rw [hc.termPid, if_pos rfl]
  have hpids : ∀ t, t ≠ k.scheduledTerm → (k'.terms t).pid = (k.terms t).pid := fun t ht => by
    rw [hc.termPid, if_neg ht]
  refine h.replace hc.scheduledTerm hpids ?_ (fun t _ => hheld t) ?_ ?_ ?_ ?_ ?_ ?_ ?_
  · -- the block of the new process belongs to none of the other terminals
    rintro t ht q (hq | rfl)
    · exact hpcb q (hnew t q hq)
    · exact hpcb _ (h.reuse_ne hreuse ht)
  · intro t ht h0
    rw [hc.pid, Function.update_of_ne (h.reuse_ne hreuse ht)]
    exact h0
  · intro c hcm
    rcases List.mem_cons.1 hcm with rfl | hcm
    · refine ⟨by omega, ?_, fun t _ => h.not_mem_of_free hfree t⟩
      rw [hc.pid, Function.update_self]
    · exact ⟨h.range _ c hcm, hheld _ c hcm, fun t ht => h.disjoint _ t (Ne.symm ht) c hcm⟩
  · exact List.nodup_cons.2 ⟨h.not_mem_of_free hfree _, h.nodup _⟩
  · refine ⟨by rw [hself]; rfl, by rw [hself]; exact hstart, ?_⟩
    refine (h.stacked _).congr fun c hcm => ?_
    rw [hpcb c (hnew _ c hcm)]
    exact ⟨rfl, rfl, rfl⟩
  · refine .live (Function.update_self ..) hcur ?_
    rw [← hc.scheduledTerm, k'.context_self, hc.ctl]
    rfl
  · intro t ht
    rw [hcur]
    exact h.reuse_ne hreuse ht
  · intro p hp
    rw [hc.ctl] at hp
    obtain rfl := Option.some.inj hp
    refine ⟨hc.thisPcb, hc.esp0, ?_⟩
    rw [hc.paging]
    exact setUserPage_addr k i

/-- A program that does not fit: its slot stays taken and its caller gets an exception. -/
lemma fault (h : Inv k live) {i : ℕ} {p : ℤ} {c : Ctl} (hi : freeSlot k.pid = some i)
    (hreuse : ∀ t < numTtys, t ≠ k.scheduledTerm → (k.terms t).pid ≠ i)
    (hp : k.ctl.point = .user p) (hc : c.point = .faulted p .pageFault)
    (hk' : k' = { k.allocate i with ctl := c }) : Inv k' live := by
  obtain ⟨-, hfree, -⟩ := freeSlot_spec hi
  obtain ⟨l, hlive, hcur⟩ := h.proc (p := p) (by rw [hp]; rfl)
  have hsched : k'.scheduledTerm = k.scheduledTerm := by rw [hk']; rfl
  have hterms : k'.terms = k.terms := by rw [hk']; rfl
  have hpcbs : k'.pcbOf = k.pcbOf := by rw [hk']; rfl
  have hpids : k'.pid = Function.update k.pid (i : ℤ) 1 := by rw [hk']; rfl
  have hctl : k'.ctl.point = .faulted p .pageFault := by rw [hk']; exact hc
  have hheld : ∀ t, ∀ c ∈ live t, k'.pid c = 1 := fun t c hcm => by
    rw [hpids, Function.update_of_ne]
    · exact h.held t c hcm
    · rintro rfl
      exact h.not_mem_of_free hfree t hcm
  have hrep := h.replace (l := live k.scheduledTerm) hsched (fun t _ => by rw [hterms])
    (fun _ _ _ _ => by rw [hpcbs]) (fun t _ => hheld t) ?_ ?_ (h.nodup _)
    (by rw [hpcbs]; exact h.stacked _) ?_ ?_ ?_
  · rwa [Function.update_eq_self] at hrep
  · intro t ht h0
    rw [hpids, Function.update_of_ne (h.reuse_ne hreuse ht)]
    exact h0
  · exact fun c hcm =>
      ⟨h.range _ c hcm, hheld _ c hcm, fun t ht => h.disjoint _ t (Ne.symm ht) c hcm⟩
  · refine .live (c := p) (l := l) ((Function.update_self ..).trans hlive)
      (by rw [hterms]; exact hcur) ?_
    rw [← hsched, k'.context_self, hctl]
    rfl
  · intro t ht
    have hmem : p ∈ live k.scheduledTerm := hlive ▸ List.mem_cons_self ..
    rw [hterms, show (k.terms k.scheduledTerm).pid = p from hcur]
    exact h.pid_ne hmem ht
  · intro q hq
    rw [hctl] at hq
    exact absurd hq (by simp [Point.runs])

/-! ### The end of a process -/

/-- `syscall_halt` of a base shell: its slot is free until it is executed anew. -/
lemma free (h : Inv k live) {p : ℤ} (hp : k.ctl.point.proc = some p)
    (hbase : (k.pcbOf k.cur).parentId = -1) (hk' : k' = { k with
      thisPcb := pcbAddr k.cur, pid := Function.update k.pid k.cur 0,
      ctl := ⟨.restart k.cur, k.kstack⟩ }) :
    Inv k' (Function.update live k.scheduledTerm ((live k.scheduledTerm).erase k.cur)) := by
  obtain ⟨l, hlive, hcur⟩ := h.proc hp
  subst hcur
  have hmem : k.cur ∈ live k.scheduledTerm := hlive ▸ List.mem_cons_self ..
  have herase : (live k.scheduledTerm).erase k.cur = l := by
    rw [hlive, List.erase_cons_head]
  have hstack := h.stacked k.scheduledTerm
  rw [hlive] at hstack
  obtain ⟨hid, hstart, hbelow⟩ := hstack
  have hnodup := h.nodup k.scheduledTerm
  rw [hlive] at hnodup
  obtain ⟨hnot, hnodup⟩ := List.nodup_cons.1 hnodup
  have hrange := h.range _ _ hmem
  have hheld : ∀ t, ∀ c ∈ live t, c ≠ k.cur → Function.update k.pid k.cur 0 c = 1 :=
    fun t c hcm hne => by
      rw [Function.update_of_ne hne]
      exact h.held t c hcm
  rw [herase]
  subst hk'
  refine h.replace rfl (fun _ _ => rfl) (fun _ _ _ _ => rfl) ?_ ?_ ?_ hnodup hbelow ?_ ?_ ?_
  · intro t ht c hcm
    refine hheld t c hcm ?_
    rintro rfl
    exact h.disjoint _ t (Ne.symm ht) _ hmem hcm
  · intro t ht h0
    exact (Function.update_of_ne (h.pid_ne hmem ht) _ _).trans h0
  · intro c hcm
    have hcm' : c ∈ live k.scheduledTerm := hlive ▸ List.mem_cons_of_mem _ hcm
    refine ⟨h.range _ c hcm', hheld _ c hcm' ?_, fun t ht => h.disjoint _ t (Ne.symm ht) c hcm'⟩
    rintro rfl
    exact hnot hcm
  · refine .restart (q := k.cur) rfl hrange (Function.update_self ..) hid (fun hne => ?_) ?_
    · -- a slot above 2 would have given the process a parent
      rw [Function.update_self] at hne
      by_contra hgt
      obtain ⟨p', l', rfl⟩ := List.exists_cons_of_ne_nil hne
      have hp' := h.range k.scheduledTerm p' (hlive ▸ by simp)
      have hparent := (hstart.nested p' rfl (by omega)).2
      omega
    · rw [Kernel.context, if_pos rfl]
  · exact fun t ht => h.pid_ne hmem ht
  · intro q hq
    exact absurd hq (by simp [Point.runs])

/-- `syscall_halt` of a process that a program executed: its caller is back. -/
lemma finish (h : Inv k live) {p : ℤ} (hp : k.ctl.point.proc = some p)
    (hparent : (k.pcbOf k.cur).parentId ≠ -1) (hsaved : (k.pcbOf k.cur).saved.IsLinkage)
    (hf : Finished k k.cur (k.pcbOf k.cur).parentId (k.pcbOf k.cur) k') :
    ∃ l, live k.scheduledTerm = k.cur :: (k.pcbOf k.cur).parentId :: l ∧
      Inv k' (Function.update live k.scheduledTerm ((live k.scheduledTerm).erase k.cur)) := by
  obtain ⟨l, hlive, hcur⟩ := h.proc hp
  subst hcur
  have hmem : k.cur ∈ live k.scheduledTerm := hlive ▸ List.mem_cons_self ..
  have herase : (live k.scheduledTerm).erase k.cur = l := by
    rw [hlive, List.erase_cons_head]
  have hstack := h.stacked k.scheduledTerm
  rw [hlive] at hstack
  obtain ⟨hid, hstart, hbelow⟩ := hstack
  have hnodup := h.nodup k.scheduledTerm
  rw [hlive] at hnodup
  obtain ⟨hnot, hnodup⟩ := List.nodup_cons.1 hnodup
  -- the caller is the process right below
  obtain ⟨parent, hlink⟩ : ∃ p, (k.pcbOf k.cur).saved = .linkage p := by
    cases hs : (k.pcbOf k.cur).saved with
    | linkage p => exact ⟨p, rfl⟩
    | pit =>
      rw [hs] at hsaved
      exact absurd hsaved id
    | halt =>
      rw [hs] at hsaved
      exact absurd hsaved id
  obtain ⟨hhead, hcases⟩ := hstart.linked parent hlink
  have hpid : (k.pcbOf k.cur).parentId = parent := hcases.resolve_left hparent
  obtain ⟨l', rfl⟩ : ∃ l', l = parent :: l' := by
    cases l with
    | nil => exact absurd hhead (by simp)
    | cons a l' => exact ⟨l', by rw [Option.some.inj hhead]⟩
  rw [hpid] at hf ⊢
  refine ⟨l', hlive, ?_⟩
  rw [herase]
  obtain ⟨fds, hpcb⟩ := hf.pcbOf
  have hother : ∀ q, q ≠ k.cur → k'.pcbOf q = k.pcbOf q := fun q hq => by
    rw [hpcb, if_neg hq]
  have hne : ∀ c ∈ parent :: l', c ≠ k.cur := by
    rintro c hcm rfl
    exact hnot hcm
  have hmem' : ∀ c ∈ parent :: l', c ∈ live k.scheduledTerm := fun c hcm =>
    hlive ▸ List.mem_cons_of_mem _ hcm
  have hpids : k'.pid = Function.update k.pid k.cur 0 := by rw [hf.pid, hid]
  have hback : (k'.terms k.scheduledTerm).pid = parent := by rw [hf.termPid, if_pos rfl]
  refine h.replace hf.scheduledTerm (fun t ht => by rw [hf.termPid, if_neg ht]) ?_ ?_ ?_ ?_
    hnodup ?_ ?_ ?_ ?_
  · rintro t ht q (hq | rfl)
    · refine hother q ?_
      rintro rfl
      exact h.disjoint _ t (Ne.symm ht) _ hmem hq
    · exact hother _ (h.pid_ne hmem ht)
  · intro t ht c hcm
    rw [hpids, Function.update_of_ne]
    · exact h.held t c hcm
    · rintro rfl
      exact h.disjoint _ t (Ne.symm ht) _ hmem hcm
  · intro t ht h0
    rw [hpids, Function.update_of_ne (h.pid_ne hmem ht)]
    exact h0
  · intro c hcm
    refine ⟨h.range _ c (hmem' c hcm), ?_, fun t ht => h.disjoint _ t (Ne.symm ht) c (hmem' c hcm)⟩
    rw [hpids, Function.update_of_ne (hne c hcm)]
    exact h.held _ c (hmem' c hcm)
  · refine hbelow.congr fun c hcm => ?_
    rw [hother c (hne c hcm)]
    exact ⟨rfl, rfl, rfl⟩
  · refine .live (Function.update_self ..) hback ?_
    rw [← hf.scheduledTerm, k'.context_self]
    rcases hf.back with ⟨-, -, hctl⟩ | hctl
    · rw [hctl, hlink]
      rfl
    · rw [hctl, hlink]
      rfl
  · intro t ht
    rw [hback]
    exact h.pid_ne (hmem' parent (List.mem_cons_self ..)) ht
  · intro q hq
    rcases hf.back with ⟨hthis, hesp, hctl⟩ | hctl
    · rw [hctl, hlink] at hq
      obtain rfl : parent = q := Option.some.inj hq
      refine ⟨hthis, hesp, ?_⟩
      rw [hf.paging]
      exact setUserPage_addr k parent
    · rw [hctl, hlink] at hq
      exact absurd hq (by simp [Caller.raise, Point.runs])

/-! ### Every orderly step -/

/-- **The invariant step.**  An orderly step keeps the kernel's representation of the stacks. -/
theorem step {img : Image} {e : Event} {m m' : Machine} (h : Inv m.kernel m.live)
    (ho : Orderly img e m.kernel) (hs : m.step img e = some m') : Inv m'.kernel m'.live := by
  have heff := step_effect hs
  obtain ⟨k, live⟩ := m
  obtain ⟨k', live'⟩ := m'
  dsimp only at h ho heff ⊢
  cases heff with
  | same hsame _ hmoves => exact h.same hsame hmoves
  | called _ _ hsame _ _ hmoves => exact h.same hsame hmoves
  | tick he ht => exact h.tick ht (ho.tickSafe (by rw [he]; rfl))
  | created he hd hi hfits hc =>
    refine h.create hi ?_ hc (h.started_new he hi)
    exact ho.noReuse (by rw [he.program, hd]; rfl) _ hi
  | @faulted caller command buf d i he hd hi hfits hk' =>
    have hreuse := ho.noReuse (by rw [he.program, hd]; rfl) _ hi
    obtain ⟨c, hk', hc⟩ := hk'
    cases he with
    | execute _ _ hpt => exact h.fault hi hreuse hpt (hc _ rfl) hk'
    | boot _ hpt =>
      obtain ⟨⟨d', hd', hfits'⟩, -⟩ := ho.shellStarts rfl
      obtain rfl : d' = d := Option.some.inj (hd'.symm.trans hd)
      exact absurd hfits' hfits
    | restart _ hpt =>
      obtain ⟨⟨d', hd', hfits'⟩, -⟩ := ho.shellStarts rfl
      obtain rfl : d' = d := Option.some.inj (hd'.symm.trans hd)
      exact absurd hfits' hfits
  | failed he hc hd =>
    obtain ⟨⟨d', hd', -⟩, hslot⟩ := ho.shellStarts (he.isOwn hc)
    rcases hd with hnone | hnone
    · rw [he.program, hnone] at hd'
      exact absurd hd' (by simp)
    · rw [hnone] at hslot
      exact absurd hslot (by simp)
  | halted he hp hk' =>
    subst hk'
    rcases syscallHalt_cases k with ⟨hbase, heq⟩ | ⟨hparent, hfin⟩
    · exact h.free hp hbase heq
    · have hends : e.ends = true := by rcases he with rfl | rfl <;> rfl
      obtain ⟨l, -, hinv⟩ := h.finish hp hparent (ho.returns hends hparent) hfin
      exact hinv

end Inv

/-- At boot no terminal has a process. -/
lemma inv_boot (l : Layout) (pg : Paging) (vram : ℕ → ℕ → UInt8) (mem : ℤ → Pcb) :
    Inv (bootMachine l pg vram mem).kernel (bootMachine l pg vram mem).live := by
  refine ⟨Nat.lt_succ_self 2, fun t c hc => absurd hc List.not_mem_nil,
    fun t c hc => absurd hc List.not_mem_nil, fun t => List.nodup_nil,
    fun s t _ c hc => absurd hc List.not_mem_nil, fun t => trivial,
    fun t => .unused rfl rfl fun _ => Or.inl rfl, fun s t _ _ => rfl, fun t _ => rfl,
    fun t _ hpid => absurd rfl hpid,
    fun p hp => absurd hp (by simp [bootMachine, entryState, Point.runs])⟩

/-- Every state of an orderly run represents its stacks. -/
theorem inv_of_reach {img : Image} {ok : Event → Machine → Prop}
    (hok : ∀ e m, ok e m → Orderly img e m.kernel) {m₀ m : Machine}
    (h₀ : Inv m₀.kernel m₀.live) (h : Runs.Reach (Machine.step img) ok m₀ m) :
    Inv m.kernel m.live :=
  h.invariant (P := fun m => Inv m.kernel m.live) h₀
    fun e m _ hm he hs => hm.step (hok e m he) hs

end WnajOS
