import WnajOS.Bracketing

/-!
# Parents

`syscall_execute` chooses the parent of a process by the number of its slot: none for the slots
0 to 2, which are meant for the base shells, and the process of the terminal for the others.
`Family` records who really executed the process of a slot.  The parents are right in a run if
and as long as programs get the slots from 3 on, and restarted shells the slots up to 2.

Nothing else is asked of the run: neither an order of the boot nor that the slots of the
terminals differ.
-/

namespace WnajOS

/-! ### Who executed a process -/

/-- Who executed a process. -/
inductive Origin
  /-- the kernel: the process is a base shell -/
  | kernel
  /-- the program of the process `p` -/
  | program (p : ℤ)
deriving DecidableEq

/-- The `parent_id` that the process should have. -/
def Origin.parent : Origin → ℤ
  | .kernel => -1
  | .program p => p

/-- The kernel and, for each slot, who executed the process last started in it.  No code reads
`origin`. -/
structure Family where
  kernel : Kernel
  origin : ℤ → Option Origin

/-- Who calls `syscall_execute`. -/
def Event.executor (k : Kernel) : Event → Origin
  | .execute _ _ =>
    match k.ctl.point with
    | .user p => .program p
    | _ => .kernel
  | _ => .kernel

/-- The record after a step that may have started a process. -/
def originAfter (e : Event) (k k' : Kernel) (origin : ℤ → Option Origin) : ℤ → Option Origin :=
  if e.starts then
    match k'.ctl.point.entering? with
    | some c => Function.update origin c (some (e.executor k))
    | none => origin
  else origin

/-- One step of the kernel with its record. -/
def Family.step (img : Image) (e : Event) (F : Family) : Option Family :=
  (WnajOS.step img e F.kernel).map fun k' => ⟨k', originAfter e F.kernel k' F.origin⟩

/-- The kernel at boot. -/
def Family.boot (l : Layout) (pg : Paging) (vram : ℕ → ℕ → UInt8) (mem : ℤ → Pcb) : Family :=
  ⟨entryState l pg vram mem, fun _ => none⟩

/-! ### Parents and their programs -/

/-- Every process has the parent that executed it, and exactly the base shells have none. -/
structure ParentsOk (F : Family) : Prop where
  linked : ∀ c o, F.origin c = some o → (F.kernel.pcbOf c).parentId = o.parent
  base : ∀ c o, F.origin c = some o → ((F.kernel.pcbOf c).parentId = -1 ↔ o = .kernel)

/-- When a process that a program executed halts, that program runs again. -/
def ReturnsToCaller (e : Event) (F F' : Family) : Prop :=
  e.ends → ∀ c p, F.kernel.ctl.point.proc = some c → F.origin c = some (.program p) →
    F'.kernel.ctl.point = .user p ∧ F'.kernel.cur = p

/-! ### The condition on a step -/

/-- The slots that are right for the process the event starts. -/
def Event.SlotFits : Event → ℕ → Prop
  | .execute _ _, i => 3 ≤ i
  | .restartExec _, i => i ≤ 2
  | _, _ => True

instance : (e : Event) → (i : ℕ) → Decidable (e.SlotFits i)
  | .execute _ _, i => inferInstanceAs (Decidable (3 ≤ i))
  | .restartExec _, i => inferInstanceAs (Decidable (i ≤ 2))
  | .tick, _ => .isTrue trivial
  | .key _ _, _ => .isTrue trivial
  | .bootExec _, _ => .isTrue trivial
  | .enter, _ => .isTrue trivial
  | .call _, _ => .isTrue trivial
  | .begin _, _ => .isTrue trivial
  | .finish, _ => .isTrue trivial
  | .raise _, _ => .isTrue trivial
  | .report, _ => .isTrue trivial
  | .halt, _ => .isTrue trivial
  | .raisedHalt, _ => .isTrue trivial

/-- A process that is started gets a slot that is right for it. -/
def SlotOk (img : Image) (e : Event) (k : Kernel) : Prop :=
  ∀ d ∈ e.program? img, LoadFits img d → ∀ i ∈ freeSlot k.pid, e.SlotFits i

instance (img : Image) (e : Event) (k : Kernel) : Decidable (SlotOk img e k) :=
  inferInstanceAs (Decidable (∀ d ∈ e.program? img, _ → ∀ i ∈ freeSlot k.pid, _))

/-! ### The invariant -/

/-- The process a point belongs to, base shells that are being restarted included. -/
def Point.owner : Point → Option ℤ
  | .restart q => some q
  | x => x.proc

lemma Point.owner_of_proc {x : Point} {p : ℤ} (h : x.proc = some p) : x.owner = some p := by
  cases x with
  | restart q => exact absurd h (by simp [Point.proc])
  | _ => exact h

/-- The process control block `b` of a process that `o` executed. -/
structure Block (origin : ℤ → Option Origin) (o : Origin) (b : Pcb) : Prop where
  parent : b.parentId = o.parent
  kernel : o = .kernel → ¬b.saved.IsLinkage
  program : ∀ p, o = .program p → b.saved = .linkage p ∧ (origin p).isSome
  closable : Closable b.fdArr

/-- The terminals name processes that were started, the code that runs is that of the process
the terminal names, and so is the code of the other terminals. -/
structure Linked (F : Family) : Prop where
  sched : F.kernel.scheduledTerm < numTtys
  running : ∀ q, F.kernel.ctl.point.owner = some q → F.kernel.cur = q ∧ (F.origin q).isSome
  boot : F.kernel.ctl.point = .boot → F.kernel.cur = -1
  parked : ∀ t, t ≠ F.kernel.scheduledTerm → (F.kernel.terms t).pid ≠ -1 →
    (F.kernel.pcbOf (F.kernel.terms t).pid).scheduled.point ≠ .boot ∧
    ∀ q, (F.kernel.pcbOf (F.kernel.terms t).pid).scheduled.point.owner = some q →
      (F.kernel.terms t).pid = q
  named : ∀ t, (F.kernel.terms t).pid ≠ -1 → (F.origin (F.kernel.terms t).pid).isSome
  thisPcb : F.kernel.cur ≠ -1 → F.kernel.thisPcb = pcbAddr F.kernel.cur
  slots : ∀ c, (F.origin c).isSome → 0 ≤ c
  block : ∀ c o, F.origin c = some o → Block F.origin o (F.kernel.pcbOf c)

namespace Linked

variable {img : Image} {k k' : Kernel} {origin : ℤ → Option Origin}

/-- A process that was started is not the pid of a terminal without a process. -/
lemma ne_none {F : Family} (h : Linked F) {c : ℤ} (hc : (F.origin c).isSome) : c ≠ -1 := by
  have h0 := h.slots c hc
  omega

/-- What the invariant says of the parents. -/
lemma parentsOk {F : Family} (h : Linked F) : ParentsOk F := by
  refine ⟨fun c o ho => (h.block c o ho).parent, fun c o ho => ?_⟩
  have hblock := h.block c o ho
  rw [hblock.parent]
  constructor
  · intro hnone
    cases o with
    | kernel => rfl
    | program p => exact absurd hnone (h.ne_none (hblock.program p rfl).2)
  · rintro rfl
    rfl

/-- A step within the scheduled process: at most its descriptors change. -/
lemma within (h : Linked ⟨k, origin⟩) (hs : SameProcs k k') (hm : k.ctl.Moves k'.ctl)
    {fds : FdArr} (hpcbs : k'.pcbs = (k.setFds fds).pcbs)
    (hfds : Closable k.pcb.fdArr → Closable fds) : Linked ⟨k', origin⟩ := by
  have hsame : ∀ q, ∃ f, k'.pcbOf q = { k.pcbOf q with fdArr := f } := hs.pcbOf
  have hcur := hs.cur
  refine ⟨hs.scheduledTerm ▸ h.sched, fun q hq => ?_, fun hboot => ?_, fun t ht hpid => ?_,
    fun t hpid => ?_, fun hne => ?_, h.slots, fun c o ho => ?_⟩
  · dsimp only at hq ⊢
    rw [hcur]
    rcases hm.point with heq | ⟨p, hp, hp'⟩
    · exact h.running q (by rw [← heq]; exact hq)
    · obtain rfl : p = q := Option.some.inj ((Point.owner_of_proc hp').symm.trans hq)
      exact h.running p (Point.owner_of_proc hp)
  · dsimp only at hboot ⊢
    rw [hcur]
    rcases hm.point with heq | ⟨p, hp, hp'⟩
    · exact h.boot (heq.symm.trans hboot)
    · rw [hboot] at hp'
      exact absurd hp' (by simp [Point.proc])
  · dsimp only at ht hpid ⊢
    rw [hs.scheduledTerm] at ht
    rw [hs.termPid] at hpid ⊢
    obtain ⟨f, hf⟩ := hsame (k.terms t).pid
    rw [hf]
    exact h.parked t ht hpid
  · dsimp only at hpid ⊢
    rw [hs.termPid] at hpid ⊢
    exact h.named t hpid
  · dsimp only at hne ⊢
    rw [hcur] at hne ⊢
    rw [hs.thisPcb]
    exact h.thisPcb hne
  · have hblock := h.block c o ho
    have hpcb : k'.pcbOf c = k.pcbOf c ∨
        pcbAddr c = k.thisPcb ∧ k'.pcbOf c = { k.pcbOf c with fdArr := fds } := by
      rw [Kernel.pcbOf, hpcbs, Kernel.setFds, Kernel.setPcb]
      by_cases hc : pcbAddr c = k.thisPcb
      · refine Or.inr ⟨hc, ?_⟩
        dsimp only
        rw [hc, Function.update_self, Kernel.pcbOf, hc, Kernel.pcb]
      · exact Or.inl (Function.update_of_ne hc ..)
    dsimp only
    rcases hpcb with heq | ⟨hthis, heq⟩
    · rw [heq]
      exact hblock
    · rw [heq]
      refine ⟨hblock.parent, hblock.kernel, hblock.program, hfds ?_⟩
      rw [Kernel.pcb, ← hthis]
      exact hblock.closable

/-- A tick saves the code of the scheduled process and resumes that of the next one. -/
lemma tick (h : Linked ⟨k, origin⟩) (ht : Ticked k k') : Linked ⟨k', origin⟩ := by
  have hnext : k'.scheduledTerm ≠ k.scheduledTerm := by
    have hsched : k.scheduledTerm < 3 := h.sched
    rw [ht.scheduledTerm, numTtys]
    omega
  have hfields : ∀ q, (k'.pcbOf q).parentId = (k.pcbOf q).parentId ∧
      (k'.pcbOf q).saved = (k.pcbOf q).saved ∧ (k'.pcbOf q).fdArr = (k.pcbOf q).fdArr := by
    intro q
    rw [ht.pcbOf]
    split
    · rename_i hq
      rw [hq.1]
      exact ⟨rfl, rfl, rfl⟩
    · exact ⟨rfl, rfl, rfl⟩
  -- the code that is saved belongs to the process
  have hinterrupted : k.cur ≠ -1 → k.interrupted.point ≠ .boot ∧
      ∀ q, k.interrupted.point.owner = some q → k.cur = q := by
    intro hcur
    rw [Kernel.interrupted]
    split
    · exact ⟨by simp, fun q hq => absurd hq (by simp [Point.owner, Point.proc])⟩
    · exact ⟨fun hboot => hcur (h.boot hboot), fun q hq => (h.running q hq).1⟩
  have hparked : ∀ t, (k.terms t).pid ≠ -1 →
      (k'.pcbOf (k.terms t).pid).scheduled.point ≠ .boot ∧
      ∀ q, (k'.pcbOf (k.terms t).pid).scheduled.point.owner = some q → (k.terms t).pid = q := by
    intro t hpid
    rw [ht.pcbOf]
    by_cases hcur : (k.terms t).pid = k.cur
    · rw [if_pos ⟨hcur, hcur ▸ hpid⟩, hcur]
      exact hinterrupted (hcur ▸ hpid)
    · rw [if_neg fun hq => hcur hq.1]
      refine h.parked t (fun heq => hcur ?_) hpid
      dsimp only at heq
      rw [heq, Kernel.cur]
  have hcur' : k'.cur = (k.terms k'.scheduledTerm).pid := ht.termPid _
  refine ⟨?_, fun q hq => ?_, fun hboot => ?_, fun t _ hpid => ?_, fun t hpid => ?_, fun hne => ?_,
    h.slots, fun c o ho => ?_⟩
  · dsimp only
    rw [ht.scheduledTerm]
    exact Nat.mod_lt _ (by decide)
  · dsimp only at hq ⊢
    rcases ht.next with ⟨-, hctl, -⟩ | ⟨hne, -, -, hctl, -⟩
    · rw [hctl] at hq
      exact absurd hq (by simp [Point.owner, Point.proc])
    · rw [hctl, hcur'] at hq
      rw [hcur'] at hne ⊢
      obtain rfl := (hparked _ hne).2 q hq
      exact ⟨rfl, h.named _ hne⟩
  · dsimp only at hboot ⊢
    rcases ht.next with ⟨hnone, -⟩ | ⟨hne, -, -, hctl, -⟩
    · exact hnone
    · rw [hctl, hcur'] at hboot
      rw [hcur'] at hne
      exact absurd hboot (hparked _ hne).1
  · dsimp only at hpid ⊢
    rw [ht.termPid] at hpid ⊢
    exact hparked t hpid
  · dsimp only at hpid ⊢
    rw [ht.termPid] at hpid ⊢
    exact h.named t hpid
  · rcases ht.next with ⟨hnone, -⟩ | ⟨-, hthis, -⟩
    · exact absurd hnone hne
    · exact hthis
  · obtain ⟨hparent, hsaved, hfds⟩ := hfields c
    have hblock := h.block c o ho
    exact ⟨hparent.trans hblock.parent, by dsimp only; rw [hsaved]; exact hblock.kernel,
      by dsimp only; rw [hsaved]; exact hblock.program,
      by dsimp only; rw [hfds]; exact hblock.closable⟩

/-- A process is created: its block names the one that executed it. -/
lemma create (h : Linked ⟨k, origin⟩) {e : Event} {caller : Caller} {command : Str} {buf : Buf}
    {i : ℕ} {args : Buf} (he : Starts k e caller command buf) (hfits : e.SlotFits i)
    (hc : Created k i caller args k') :
    Linked ⟨k', Function.update origin i (some (e.executor k))⟩ := by
  have hmono : ∀ q, (origin q).isSome →
      (Function.update origin (i : ℤ) (some (e.executor k)) q).isSome := by
    intro q hq
    by_cases hqi : q = i
    · rw [hqi, Function.update_self]
      rfl
    · rw [Function.update_of_ne hqi]
      exact hq
  have hscheduled : ∀ q, (k'.pcbOf q).scheduled = (k.pcbOf q).scheduled := by
    intro q
    rw [hc.pcbOf]
    split
    · rename_i hq
      rw [hq]
      rfl
    · rfl
  have hcur : k'.cur = i := by
    rw [Kernel.cur, hc.termPid, if_pos hc.scheduledTerm]
  -- the block of the new process
  have hnew : Block (Function.update origin (i : ℤ) (some (e.executor k))) (e.executor k)
      (newPcb (k.pcbOf i) i k.cur caller args) := by
    have hcl : Closable (newPcb (k.pcbOf i) i k.cur caller args).fdArr := setupFd_closable _
    cases he with
    | @execute p _ _ hpt =>
      obtain ⟨hp, hsome⟩ := h.running p (by dsimp only; rw [hpt]; rfl)
      have h3 : ¬(0 ≤ (i : ℤ) ∧ (i : ℤ) ≤ 2) := by
        have hi : 3 ≤ i := hfits
        omega
      have hexec : (Event.execute command buf).executor k = .program p := by
        rw [Event.executor, hpt]
      rw [hexec] at hmono ⊢
      refine ⟨?_, fun hk => absurd hk (by simp), ?_, hcl⟩
      · rw [newPcb, if_neg h3]
        exact hp
      · rintro p' hp'
        obtain rfl := Origin.program.inj hp'
        exact ⟨rfl, hmono p hsome⟩
    | boot _ hpt =>
      refine ⟨?_, fun _ => id, fun p hp => absurd hp (by simp [Event.executor]), hcl⟩
      rw [newPcb]
      dsimp only
      split
      · rfl
      · exact h.boot hpt
    | restart _ hpt =>
      refine ⟨?_, fun _ => id, fun p hp => absurd hp (by simp [Event.executor]), hcl⟩
      have h2 : 0 ≤ (i : ℤ) ∧ (i : ℤ) ≤ 2 := by
        have hi : i ≤ 2 := hfits
        omega
      rw [newPcb, if_pos h2]
      rfl
  refine ⟨hc.scheduledTerm ▸ h.sched, fun q hq => ?_, fun hboot => ?_, fun t ht hpid => ?_,
    fun t hpid => ?_, fun _ => ?_, fun c hcs => ?_, fun c o ho => ?_⟩
  · -- the processor enters the new process
    dsimp only at hq ⊢
    rw [hc.ctl] at hq
    obtain rfl : (i : ℤ) = q := Option.some.inj hq
    rw [Function.update_self]
    exact ⟨hcur, rfl⟩
  · dsimp only at hboot
    rw [hc.ctl] at hboot
    exact absurd hboot (by simp)
  · dsimp only at ht hpid ⊢
    rw [hc.scheduledTerm] at ht
    rw [hc.termPid, if_neg ht] at hpid ⊢
    rw [hscheduled]
    exact h.parked t ht hpid
  · dsimp only at hpid ⊢
    rw [hc.termPid] at hpid ⊢
    by_cases ht : t = k.scheduledTerm
    · rw [if_pos ht, Function.update_self]
      rfl
    · rw [if_neg ht] at hpid ⊢
      exact hmono _ (h.named t hpid)
  · dsimp only
    rw [hc.thisPcb, hcur]
  · dsimp only at hcs
    by_cases hci : c = i
    · omega
    · rw [Function.update_of_ne hci] at hcs
      exact h.slots c hcs
  · -- the other blocks stay, and programs that were started stay started
    dsimp only at ho ⊢
    rw [hc.pcbOf]
    by_cases hci : c = i
    · rw [hci, Function.update_self] at ho
      obtain rfl := Option.some.inj ho
      rw [if_pos hci]
      exact hnew
    · rw [Function.update_of_ne hci] at ho
      rw [if_neg hci]
      have hblock := h.block c o ho
      exact ⟨hblock.parent, hblock.kernel,
        fun p hp => ⟨(hblock.program p hp).1, hmono p (hblock.program p hp).2⟩, hblock.closable⟩

/-- Another point of the code, of the same process or of none, with another process table. -/
lemma point (h : Linked ⟨k, origin⟩) {c : Ctl} {pids : ℤ → ℤ} {cur : ℤ} {pg : Paging}
    (hboot : c.point ≠ .boot)
    (hc : ∀ p, c.point.owner = some p → k.ctl.point.owner = some p) :
    Linked ⟨{ k with pid := pids, currentPid := cur, paging := pg, ctl := c }, origin⟩ :=
  ⟨h.sched, fun q hq => h.running q (hc q hq), fun hb => absurd hb hboot, h.parked, h.named,
    h.thisPcb, h.slots, h.block⟩

/-- The process `q` of the scheduled terminal ends. -/
lemma finish (h : Linked ⟨k, origin⟩) {q : ℤ} {o : Origin} (hcur : k.cur = q)
    (ho : origin q = some o) : Linked ⟨k.haltFinish, origin⟩ ∧
      ∀ p, o = .program p → k.haltFinish.ctl.point = .user p ∧ k.haltFinish.cur = p := by
  have hne : k.cur ≠ -1 := by
    rw [hcur]
    exact h.ne_none (by dsimp only; rw [ho]; rfl)
  have hthis : k.thisPcb = pcbAddr q := hcur ▸ h.thisPcb hne
  have hblock := h.block q o ho
  dsimp only at hblock
  have hfin := haltFinish_finished k q hthis
  obtain ⟨hthis', -, hctl, hclosed⟩ := haltFinish_back k q hthis hblock.closable
  have hparent := hblock.parent
  rw [hparent] at hthis' hfin
  obtain ⟨fds, hpcb⟩ := hfin.pcbOf
  have hcur' : k.haltFinish.cur = o.parent := by
    rw [Kernel.cur, hfin.termPid, if_pos hfin.scheduledTerm]
  have hback : ∀ p, o = .program p → k.haltFinish.ctl.point = .user p := by
    intro p hp
    rw [hctl, (hblock.program p hp).1]
    rfl
  have hlost : o = .kernel → k.haltFinish.ctl.point = .lost := by
    intro hk
    have hsaved := hblock.kernel hk
    rw [hctl]
    cases hs : (k.pcbOf q).saved with
    | linkage p =>
      rw [hs] at hsaved
      exact absurd trivial hsaved
    | pit => rfl
    | halt => rfl
  have hscheduled : ∀ c, (k.haltFinish.pcbOf c).scheduled = (k.pcbOf c).scheduled := by
    intro c
    rw [hpcb]
    split
    · rename_i hc
      rw [hc]
    · rfl
  refine ⟨⟨hfin.scheduledTerm ▸ h.sched, fun c hc => ?_, fun hboot => ?_, fun t ht hpid => ?_,
    fun t hpid => ?_, fun _ => ?_, h.slots, fun c o' ho' => ?_⟩, fun p hp => ⟨hback p hp, ?_⟩⟩
  · -- the processor goes to the program that executed `q`, or is lost
    dsimp only at hc ⊢
    cases o with
    | kernel =>
      rw [hlost rfl] at hc
      exact absurd hc (by simp [Point.owner, Point.proc])
    | program p =>
      rw [hback p rfl] at hc
      obtain rfl : p = c := Option.some.inj hc
      exact ⟨hcur', (hblock.program p rfl).2⟩
  · dsimp only at hboot
    cases o with
    | kernel =>
      rw [hlost rfl] at hboot
      exact absurd hboot (by simp)
    | program p =>
      rw [hback p rfl] at hboot
      exact absurd hboot (by simp)
  · dsimp only at ht hpid ⊢
    rw [hfin.scheduledTerm] at ht
    rw [hfin.termPid, if_neg ht] at hpid ⊢
    rw [hscheduled]
    exact h.parked t ht hpid
  · dsimp only at hpid ⊢
    rw [hfin.termPid] at hpid ⊢
    by_cases ht : t = k.scheduledTerm
    · rw [if_pos ht] at hpid ⊢
      cases o with
      | kernel => exact absurd rfl hpid
      | program p => exact (hblock.program p rfl).2
    · rw [if_neg ht] at hpid ⊢
      exact h.named t hpid
  · dsimp only
    rw [hthis', hcur']
  · -- of the blocks only that of `q` changes, and its descriptors are closed
    dsimp only at ho' ⊢
    by_cases hc : c = q
    · rw [hc] at ho' ⊢
      obtain rfl : o = o' := Option.some.inj (ho.symm.trans ho')
      have hcl : Closable (k.haltFinish.pcbOf q).fdArr :=
        fun i h2 h8 hflags => absurd (hclosed i h2 h8) hflags
      rw [hpcb, if_pos rfl] at hcl ⊢
      exact ⟨hblock.parent, hblock.kernel, hblock.program, hcl⟩
    · rw [hpcb, if_neg hc]
      exact h.block c o' ho'
  · rw [hcur', hp]
    rfl

/-- A call of `syscall_execute` starts a process with the first free slot, or it leaves the
processes as they are, or the base shell that was to be restarted ends. -/
lemma started {e : Event} {caller : Caller} {command : Str} {buf : Buf}
    (h : Linked ⟨k, origin⟩) (he : Starts k e caller command buf) (hslot : SlotOk img e k)
    (hs : step img e k = some k') : Linked ⟨k', originAfter e k k' origin⟩ := by
  have hstarts : e.starts = true := by cases he <;> rfl
  have hprogram := @Starts.program img _ _ _ _ _ he
  have hex := executed img k caller command buf
  have hstep : ∃ failed fault, startStep img k caller command buf failed fault = some k' ∧
      Linked ⟨failed, origin⟩ ∧ failed.ctl.point.entering? = none ∧ fault.point ≠ .boot ∧
      fault.point.entering? = none ∧
      ∀ p, fault.point.owner = some p → k.ctl.point.owner = some p := by
    cases he with
    | execute _ _ hpt =>
      simp only [step, hpt] at hs
      exact ⟨_, _, hs, h, by rw [hpt]; rfl, by simp, rfl, fun p hp => by rw [hpt]; exact hp⟩
    | boot _ hpt =>
      simp only [step, hpt] at hs
      exact ⟨_, _, hs, h.point (by simp) (fun p hp => absurd hp (by simp [Point.owner, Point.proc])),
        rfl, by simp, rfl, fun p hp => absurd hp (by simp [Point.owner, Point.proc])⟩
    | restart _ hpt =>
      simp only [step, hpt] at hs
      obtain ⟨hcur, hsome⟩ := h.running _ (by dsimp only; rw [hpt]; rfl)
      obtain ⟨o, ho⟩ := Option.isSome_iff_exists.1 hsome
      exact ⟨_, _, hs, (h.finish hcur ho).1, haltFinish_entering k, by simp, rfl,
        fun p hp => by rw [hpt]; exact hp⟩
  obtain ⟨failed, fault, hstep, hfailed, hentering, hboot, hentering', howner⟩ := hstep
  rw [startStep] at hstep
  generalize syscallExecute img k caller command buf = r at hstep hex
  rw [originAfter, if_pos hstarts]
  cases hex with
  | fails =>
    obtain rfl := Option.some.inj hstep
    rw [hentering]
    exact hfailed
  | starts hd hi hfits =>
    obtain rfl := Option.some.inj hstep
    exact h.create he (hslot _ (hprogram.trans hd) hfits _ hi) (created k _ caller _)
  | faults hd hi hfits =>
    obtain rfl := Option.some.inj hstep
    dsimp only
    rw [hentering']
    exact h.point hboot howner

/-- A call of `syscall_halt` by the process that runs. -/
lemma halted (h : Linked ⟨k, origin⟩) {c : ℤ} (hc : k.ctl.point.proc = some c) :
    Linked ⟨k.syscallHalt, origin⟩ ∧
      ∀ p, origin c = some (.program p) →
        k.syscallHalt.ctl.point = .user p ∧ k.syscallHalt.cur = p := by
  obtain ⟨hcur, hsome⟩ := h.running c (Point.owner_of_proc hc)
  obtain ⟨o, ho⟩ := Option.isSome_iff_exists.1 hsome
  dsimp only at hcur ho
  have hthis := h.thisPcb (by dsimp only; rw [hcur]; exact h.ne_none hsome)
  dsimp only at hthis
  have hself : ({ k with thisPcb := pcbAddr k.cur } : Kernel) = k := by rw [← hthis]
  have hblock := h.block c o ho
  have hpcb : k.pcb = k.pcbOf c := by rw [Kernel.pcb, hthis, hcur, Kernel.pcbOf]
  by_cases hnone : (k.pcbOf c).parentId = -1
  · have heq : k.syscallHalt = { k with pid := Function.update k.pid k.cur 0,
                                        ctl := ⟨.restart k.cur, k.kstack⟩ } := by
      rw [Kernel.syscallHalt, hself, if_pos (hpcb ▸ hnone)]
    rw [heq]
    refine ⟨h.point (by simp) fun p hp => ?_, fun p hp => ?_⟩
    · obtain rfl : k.cur = p := Option.some.inj hp
      rw [hcur]
      exact Point.owner_of_proc hc
    · -- a process with a parent has a parent in its block
      obtain rfl := Option.some.inj (ho.symm.trans hp)
      rw [show (k.pcbOf c).parentId = p from hblock.parent] at hnone
      exact absurd hnone (h.ne_none (hblock.program p rfl).2)
  · have heq : k.syscallHalt = k.haltFinish := by
      rw [Kernel.syscallHalt, hself, if_neg (hpcb ▸ hnone)]
    rw [heq]
    obtain ⟨hlinked, hback⟩ := h.finish hcur ho
    exact ⟨hlinked, fun p hp => hback p (Option.some.inj (ho.symm.trans hp))⟩

/-- **The invariant step.** -/
theorem step {e : Event} {F F' : Family} (h : Linked F) (hslot : SlotOk img e F.kernel)
    (hopens : OpensDriver img e F.kernel) (hs : F.step img e = some F') : Linked F' := by
  obtain ⟨k', hk, rfl⟩ := Option.map_eq_some_iff.1 hs
  obtain ⟨k, origin⟩ := F
  dsimp only at h hslot hopens hk ⊢
  have hstep : Machine.step img e ⟨k, fun _ => []⟩ = some ⟨k', liveAfter e k k' fun _ => []⟩ := by
    rw [Machine.step, hk]
    rfl
  -- a step that starts nothing keeps the record
  have hkeep : e.starts = false → originAfter e k k' origin = origin := fun hno => by
    rw [originAfter, hno]
    rfl
  have heff := step_effect hstep
  cases hstarts : e.starts with
  | true =>
    obtain ⟨caller, command, buf, he⟩ := starts_of_step hstarts hk
    exact h.started he hslot hk
  | false =>
    rw [hkeep hstarts]
    dsimp only at heff
    generalize liveAfter e k k' (fun _ => []) = live at heff
    cases heff with
    | same hsame hpcbs hmoves =>
      exact h.within hsame hmoves (by rw [hpcbs, SameProcs.setFds_self]) id
    | called he _ hsame hfds hpcbs hmoves =>
      exact h.within hsame hmoves hpcbs fun hcl => hcl.change hopens he hfds
    | tick _ ht => exact h.tick ht
    | created he => exact absurd hstarts (by cases he <;> simp [Event.starts])
    | faulted he => exact absurd hstarts (by cases he <;> simp [Event.starts])
    | failed he => exact absurd hstarts (by cases he <;> simp [Event.starts])
    | halted he hp heq =>
      rw [heq]
      exact (h.halted hp).1

/-- When a process that a program executed halts, that program runs again. -/
lemma returns {e : Event} {F F' : Family} (h : Linked F) (hs : F.step img e = some F') :
    ReturnsToCaller e F F' := by
  intro hends c p hc hp
  obtain ⟨k', hk, rfl⟩ := Option.map_eq_some_iff.1 hs
  obtain rfl := step_of_ends hends hk
  obtain ⟨k, origin⟩ := F
  exact (h.halted hc).2 p hp

end Linked

/-- At boot no process was started. -/
lemma linked_boot (l : Layout) (pg : Paging) (vram : ℕ → ℕ → UInt8) (mem : ℤ → Pcb) :
    Linked (Family.boot l pg vram mem) :=
  ⟨Nat.lt_succ_self 2,
    fun q hq => absurd hq (by simp [Family.boot, entryState, Point.owner, Point.proc]),
    fun _ => rfl, fun t _ hpid => absurd rfl hpid, fun t hpid => absurd rfl hpid,
    fun hne => absurd rfl hne, fun c hc => absurd hc (by simp [Family.boot]),
    fun c o ho => absurd ho (by simp [Family.boot])⟩

/-- **Parent links.**  In every run from boot in which the programs that programs execute get the
slots from 3 on, restarted shells get the slots up to 2, and no entry of a strange file type is
opened in a descriptor without a driver, every process has the parent that executed it, exactly
the base shells have none, and a process that halts gives way to its parent. -/
theorem parents_linked (img : Image) (l : Layout) (pg : Paging) (vram : ℕ → ℕ → UInt8)
    (mem : ℤ → Pcb) (F : Family)
    (h : Runs.Reach (Family.step img) (fun e F => SlotOk img e F.kernel ∧
      OpensDriver img e F.kernel) (Family.boot l pg vram mem) F) :
    ParentsOk F ∧ ∀ e F', F.step img e = some F' → ReturnsToCaller e F F' := by
  have hlinked : Linked F := by
    refine h.invariant (linked_boot l pg vram mem) ?_
    exact fun e F₁ F₂ hF hok hs => hF.step hok.1 hok.2 hs
  exact ⟨hlinked.parentsOk, fun e F' hs => hlinked.returns hs⟩

/-- The kernel at boot on zero memory. -/
def sampleFamily : Family :=
  Family.boot sampleLayout samplePaging (fun _ _ => 0) samplePcbs

/-- After the boot of the shells the last one executes a program, and that one another, while
the other terminals get their ticks. -/
def nestedPrograms : List Event :=
  bootShells ++ [.execute shellName noBuf, .enter, .tick, .tick, .tick, .execute shellName noBuf,
    .enter]

/-- Both have the program that executed them as their parent. -/
theorem parents_linked_nested :
    ∃ F, Runs.run (Family.step sampleImage) nestedPrograms sampleFamily = some F ∧
      F.origin 3 = some (.program 2) ∧ F.origin 4 = some (.program 3) ∧
      ParentsOk F ∧ ∀ e F', F.step sampleImage e = some F' → ReturnsToCaller e F F' := by
  have hrun : (Runs.run (Runs.guarded (Family.step sampleImage) fun e F =>
      SlotOk sampleImage e F.kernel ∧ OpensDriver sampleImage e F.kernel) nestedPrograms
      sampleFamily).any
      (fun F => F.origin 3 = some (.program 2) ∧ F.origin 4 = some (.program 3)) = true := by
    decide +kernel
  obtain ⟨F, hF, horigin⟩ := (Option.any_eq_true _ _).1 hrun
  obtain ⟨h3, h4⟩ := of_decide_eq_true horigin
  exact ⟨F, Runs.run_of_guarded hF, h3, h4,
    parents_linked sampleImage sampleLayout samplePaging _ _ F (Runs.reach_of_guarded hF)⟩

/-- The first shell executes a program before the other shells boot. -/
def executeEarly : List Event :=
  [.tick, .bootExec noBuf, .enter, .execute shellName noBuf, .enter]

/-- The program gets the slot 1 and no parent; when it halts, the first shell does not run
again, and a shell is started in its place. -/
theorem program_without_parent :
    ∃ F F₁ F₂, Runs.Reach (Family.step sampleImage) (fun _ _ => True) sampleFamily F ∧
      F.origin 1 = some (.program 0) ∧ (F.kernel.pcbOf 1).parentId = -1 ∧
      F.step sampleImage .halt = some F₁ ∧ F₁.step sampleImage (.restartExec noBuf) = some F₂ ∧
      F₂.origin 1 = some .kernel ∧ F₂.kernel.cur = 1 ∧
      ¬ParentsOk F ∧ ¬ReturnsToCaller .halt F F₁ := by
  have hrun : (Runs.run (Family.step sampleImage) executeEarly sampleFamily).any (fun F =>
      F.origin 1 = some (.program 0) ∧ (F.kernel.pcbOf 1).parentId = -1 ∧
      F.kernel.ctl.point.user? = some 1 ∧
      (F.step sampleImage .halt).any (fun F₁ => F₁.kernel.cur = 1 ∧
        (F₁.step sampleImage (.restartExec noBuf)).any (fun F₂ =>
          F₂.origin 1 = some .kernel ∧ F₂.kernel.cur = 1))) = true := by decide +kernel
  obtain ⟨F, hF, hstate⟩ := (Option.any_eq_true _ _).1 hrun
  obtain ⟨horigin, hparent, huser, hnext⟩ := of_decide_eq_true hstate
  obtain ⟨F₁, h₁, hnext⟩ := (Option.any_eq_true _ _).1 hnext
  obtain ⟨hcur, hnext⟩ := of_decide_eq_true hnext
  obtain ⟨F₂, h₂, hshell⟩ := (Option.any_eq_true _ _).1 hnext
  obtain ⟨hkernel, hcur₂⟩ := of_decide_eq_true hshell
  refine ⟨F, F₁, F₂, Runs.reach_of_run (fun _ _ => trivial) hF, horigin, hparent, h₁, h₂, hkernel,
    hcur₂, fun hok => ?_, fun hback => ?_⟩
  · have hlinked := hok.linked 1 _ horigin
    rw [hparent] at hlinked
    exact absurd hlinked (by decide)
  · obtain ⟨-, hzero⟩ := hback rfl 1 0 (by rw [Point.eq_user huser]; rfl) horigin
    rw [hcur] at hzero
    exact absurd hzero (by decide)

end WnajOS
