import WnajOS.Parents

/-!
# Exit statuses

`syscall_halt` returns into the `syscall_execute` of the parent, which has been suspended since
it entered the program.  On the way it puts the status into the register of return values,
closes the descriptors, and jumps to the label `LUMETTA`, where `syscall_execute` ends.

`Exits` records, for every `syscall_execute` that returns in this way, who returns to whom, how
the process ended, and the value.  The value is right exactly where the process passed the
status 0.
-/

namespace WnajOS

/-! ### The value that is returned -/

/-- How a process ends. -/
inductive Ending
  /-- its program passes `status` to `syscall_halt` -/
  | halted (status : UInt8)
  /-- `report_error` halts it after an exception -/
  | raised
deriving DecidableEq

/-- The argument of `syscall_halt`; `report_error` passes `(uint8_t)256`. -/
def Ending.argument : Ending → UInt8
  | .halted status => status
  | .raised => UInt8.ofNat 256

/-- What eax holds after the loop of `syscall_halt` over the descriptors, with `n` left, at
`fd`: `syscall_close` returns its value there. -/
def closeReturns : (n fd : ℕ) → Kernel → (eax : Int32) → Int32
  | 0, _, _, eax => eax
  | n + 1, fd, k, eax =>
    match syscallClose k (Int32.ofNat fd) with
    | .done (ret, k) => closeReturns n (fd + 1) (clearOps k fd) ret
    | .waits => eax
    | .fault _ => eax

/-- What eax holds at the jump to `LUMETTA`. -/
def Kernel.haltEax (k : Kernel) (status : UInt8) : Int32 :=
  closeReturns 6 2 k.haltClosing (Int32.ofNat status.toNat)

/-- The end of `syscall_execute`, from the label `LUMETTA` on: `return 0`. -/
def lumetta (_eax : Int32) : Int32 := 0

/-- The value that `syscall_execute` returns when the step `e` of `syscall_halt`, called with
`status`, goes back to it. -/
def Event.executeReturn (e : Event) (k : Kernel) (status : UInt8) : Int32 :=
  match e with
  | .restartExec _ => lumetta (k.haltEax status)
  | _ => lumetta (Kernel.haltEax { k with thisPcb := pcbAddr k.cur } status)

/-- `syscall_close` returns 0 or -1, unless it faults. -/
lemma syscallClose_returns (k : Kernel) (fd : Int32) :
    (∃ k', syscallClose k fd = .fault k') ∨
      ∃ ret k', syscallClose k fd = .done (ret, k') ∧ (ret = 0 ∨ ret = -1) := by
  rw [syscallClose]
  split
  · exact Or.inr ⟨_, _, rfl, Or.inr rfl⟩
  · dsimp only
    split
    · exact Or.inl ⟨_, rfl⟩
    · exact Or.inr ⟨_, _, rfl, Or.inl rfl⟩

/-- The status is lost before the jump to `LUMETTA`: the loop leaves 0 or -1 in its place. -/
lemma closeReturns_of_ok {n fd : ℕ} {k k' : Kernel} {eax : Int32}
    (h : closeFrom (n + 1) fd k = .ok k') :
    closeReturns (n + 1) fd k eax = 0 ∨ closeReturns (n + 1) fd k eax = -1 := by
  induction n generalizing fd k eax with
  | zero =>
    rw [closeFrom] at h
    rw [closeReturns]
    rcases syscallClose_returns k (Int32.ofNat fd) with ⟨k₁, heq⟩ | ⟨ret, k₁, heq, hret⟩
    · rw [heq] at h
      exact absurd h (by simp)
    · rw [heq]
      exact hret
  | succ n ih =>
    rw [closeFrom] at h
    rw [closeReturns]
    rcases syscallClose_returns k (Int32.ofNat fd) with ⟨k₁, heq⟩ | ⟨ret, k₁, heq, -⟩
    · rw [heq] at h
      exact absurd h (by simp)
    · rw [heq] at h ⊢
      exact ih h

/-! ### What a parent should get -/

/-- The value that the parent should get. -/
def Ending.result : Ending → Int32
  | .halted status => Int32.ofNat status.toNat
  | .raised => 256

/-- What the shell prints about the value that it gets. -/
inductive Report
  | noSuchCommand
  | byException
  | abnormally
  | nothing
deriving DecidableEq

/-- The comparisons of the shell with the value of `ece391_execute`. -/
def shellReport (rval : Int32) : Report :=
  if -1 = rval then .noSuchCommand
  else if 256 = rval then .byException
  else if 0 ≠ rval then .abnormally
  else .nothing

/-- What the shell should print. -/
def Ending.report : Ending → Report
  | .halted status => if status = 0 then .nothing else .abnormally
  | .raised => .byException

/-! ### The machine -/

/-- A `syscall_execute` that returned: the process it returned to, the process that ended, who
executed that one, how it ended and the value. -/
structure Return where
  parent : ℤ
  child : ℤ
  executor : Option Origin
  ending : Ending
  value : Int32

/-- The kernel with the record of who executed whom, the last call of `syscall_halt` of each
terminal, and the executes that returned, the latest first.  No code reads the records. -/
structure Exits where
  family : Family
  halting : ℕ → Ending
  returns : List Return

/-- An event, and the status when it is a call of `syscall_halt` by a program. -/
structure Act where
  event : Event
  status : UInt8

/-- The event is a step of `syscall_halt`; the shell that it executes may fail to start. -/
def Event.halts : Event → Bool
  | .halt => true
  | .raisedHalt => true
  | .restartExec _ => true
  | _ => false

/-- The calls of `syscall_halt` after a step. -/
def haltingAfter (a : Act) (k : Kernel) (halting : ℕ → Ending) : ℕ → Ending :=
  match a.event with
  | .halt => Function.update halting k.scheduledTerm (.halted a.status)
  | .raisedHalt => Function.update halting k.scheduledTerm .raised
  | _ => halting

/-- The returns after a step: `syscall_halt` went back to a program. -/
def returnsAfter (e : Event) (F F' : Family) (ending : Ending) (returns : List Return) :
    List Return :=
  if e.halts then
    match F'.kernel.ctl.point.user? with
    | some p =>
      { parent := p
        child := F.kernel.cur
        executor := F.origin F.kernel.cur
        ending := ending
        value := e.executeReturn F.kernel ending.argument } :: returns
    | none => returns
  else returns

/-- One step with its records. -/
def Exits.step (img : Image) (a : Act) (X : Exits) : Option Exits :=
  (X.family.step img a.event).map fun F' =>
    let halting := haltingAfter a X.family.kernel X.halting
    ⟨F', halting,
      returnsAfter a.event X.family F' (halting X.family.kernel.scheduledTerm) X.returns⟩

/-- The kernel at boot. -/
def Exits.boot (l : Layout) (pg : Paging) (vram : ℕ → ℕ → UInt8) (mem : ℤ → Pcb) : Exits :=
  ⟨Family.boot l pg vram mem, fun _ => .halted 0, []⟩

/-! ### The frame that is returned to -/

/-- Who called `syscall_execute`, by the caller that it saved. -/
def Caller.origin : Caller → Origin
  | .linkage p => .program p
  | .pit => .kernel
  | .halt => .kernel

/-- The process control block of a process names who executed it, and a shell that is about to
be restarted is that of the terminal. -/
structure Framed (F : Family) : Prop where
  saved : ∀ c o, F.origin c = some o → (F.kernel.pcbOf c).saved.origin = o
  restart : ∀ q, F.kernel.ctl.point = .restart q → F.kernel.thisPcb = pcbAddr F.kernel.cur

/-- `syscall_halt` ends in the program that executed the process, or not in a program. -/
lemma haltFinish_point (k : Kernel) : (∀ q, k.haltFinish.ctl.point ≠ .restart q) ∧
    ∀ p, k.haltFinish.ctl.point.user? = some p → k.pcb.saved = .linkage p := by
  have hctl : k.haltFinish.ctl = k.pcb.saved.resume ∨
      k.haltFinish.ctl = k.pcb.saved.raise k.pcb.parentId := by
    rw [haltFinish_eq]
    cases closeFrom 6 2 k.haltClosing with
    | error k₁ => exact Or.inr rfl
    | ok k₁ => exact Or.inl rfl
  constructor
  · intro q
    rcases hctl with hctl | hctl
    · rw [hctl]
      cases k.pcb.saved <;> simp [Caller.resume]
    · rw [hctl]
      cases k.pcb.saved <;> simp [Caller.raise]
  · intro p hp
    rcases hctl with hctl | hctl
    · rw [hctl] at hp
      cases hs : k.pcb.saved with
      | linkage q =>
        rw [hs] at hp
        exact congrArg Caller.linkage (Option.some.inj hp)
      | pit =>
        rw [hs] at hp
        exact absurd hp (by simp [Caller.resume, Point.user?])
      | halt =>
        rw [hs] at hp
        exact absurd hp (by simp [Caller.resume, Point.user?])
    · rw [hctl] at hp
      cases hs : k.pcb.saved with
      | linkage q =>
        rw [hs] at hp
        exact absurd hp (by simp [Caller.raise, Point.user?])
      | pit =>
        rw [hs] at hp
        exact absurd hp (by simp [Caller.raise, Point.user?])
      | halt =>
        rw [hs] at hp
        exact absurd hp (by simp [Caller.raise, Point.user?])

/-- `syscall_halt` as a whole. -/
lemma syscallHalt_frame (k : Kernel) : (∀ c, (k.syscallHalt.pcbOf c).saved = (k.pcbOf c).saved) ∧
    (∀ q, k.syscallHalt.ctl.point = .restart q → k.syscallHalt.thisPcb = pcbAddr k.syscallHalt.cur) ∧
    ∀ p, k.syscallHalt.ctl.point.user? = some p → (k.pcbOf k.cur).saved = .linkage p := by
  let k₀ : Kernel := { k with thisPcb := pcbAddr k.cur }
  by_cases hparent : k₀.pcb.parentId = -1
  · have heq : k.syscallHalt =
        { k₀ with pid := Function.update k₀.pid k₀.cur 0, ctl := ⟨.restart k₀.cur, k.kstack⟩ } :=
      if_pos hparent
    rw [heq]
    exact ⟨fun c => rfl, fun q _ => rfl, fun p hp => absurd hp (by simp [Point.user?])⟩
  · have heq : k.syscallHalt = k₀.haltFinish := if_neg hparent
    obtain ⟨hrestart, huser⟩ := haltFinish_point k₀
    rw [heq]
    exact ⟨fun c => (haltFinish_lasts k₀ _).saved, fun q hq => absurd hq (hrestart q), huser⟩

namespace Framed

variable {img : Image} {F F' : Family}

/-- A call of `syscall_execute`. -/
lemma started {k k' : Kernel} {origin : ℤ → Option Origin} (h : Framed ⟨k, origin⟩) {e : Event}
    {caller : Caller} {command : Str} {buf : Buf} (he : Starts k e caller command buf)
    (hs : WnajOS.step img e k = some k') : Framed ⟨k', originAfter e k k' origin⟩ ∧
      ∀ p, e.halts → k'.ctl.point.user? = some p → (k.pcbOf k.cur).saved = .linkage p := by
  have hex := executed img k caller command buf
  have hstarts : e.starts = true := by cases he <;> rfl
  -- where the call fails or faults, nothing is created
  have hstep : ∃ failed fault, startStep img k caller command buf failed fault = some k' ∧
      (∀ c, (failed.pcbOf c).saved = (k.pcbOf c).saved) ∧
      (∀ q, failed.ctl.point = .restart q → failed.thisPcb = pcbAddr failed.cur) ∧
      failed.ctl.point.entering? = none ∧ (∀ q, fault.point ≠ .restart q) ∧
      fault.point.entering? = none ∧ fault.point.user? = none ∧
      ∀ p, e.halts → failed.ctl.point.user? = some p → (k.pcbOf k.cur).saved = .linkage p := by
    cases he with
    | execute _ _ hpt =>
      simp only [WnajOS.step, hpt] at hs
      exact ⟨_, _, hs, fun _ => rfl, fun q hq => h.restart q hq, by rw [hpt]; rfl, by simp, rfl, rfl,
        fun p hp => absurd hp (by simp [Event.halts])⟩
    | boot _ hpt =>
      simp only [WnajOS.step, hpt] at hs
      exact ⟨_, _, hs, fun _ => rfl, by simp, rfl, by simp, rfl, rfl,
        fun p hp => absurd hp (by simp [Event.halts])⟩
    | restart _ hpt =>
      simp only [WnajOS.step, hpt] at hs
      have hthis := h.restart _ hpt
      obtain ⟨hrestart, huser⟩ := haltFinish_point k
      refine ⟨_, _, hs, fun c => (haltFinish_lasts k _).saved, fun q hq => absurd hq (hrestart q),
        haltFinish_entering k, by simp, rfl, rfl, fun p _ hp => ?_⟩
      rw [Kernel.pcbOf, ← hthis]
      exact huser p hp
  obtain ⟨failed, fault, hstep, hsaved, hrestart, hentering, hfault, hfenter, hfuser, huser⟩ := hstep
  rw [startStep] at hstep
  generalize syscallExecute img k caller command buf = r at hstep hex
  rw [originAfter, if_pos hstarts]
  cases hex with
  | fails =>
    obtain rfl := Option.some.inj hstep
    rw [hentering]
    exact ⟨⟨fun c o ho => (congrArg Caller.origin (hsaved c)).trans (h.saved c o ho), hrestart⟩,
      huser⟩
  | faults =>
    obtain rfl := Option.some.inj hstep
    dsimp only
    rw [hfenter]
    refine ⟨⟨h.saved, fun q hq => absurd hq (hfault q)⟩, fun p _ hp => ?_⟩
    exact absurd (hfuser.symm.trans hp) (by simp)
  | @starts d i =>
    obtain rfl := Option.some.inj hstep
    have hc := created k i caller (parseCommand command).args
    generalize (k.allocate i).createProcess i caller (parseCommand command).args = k' at hc
    have hctl := hc.ctl
    rw [hctl]
    refine ⟨⟨fun c o ho => ?_, fun q hq => ?_⟩, fun p _ hp => ?_⟩
    · dsimp only [Point.entering?] at ho ⊢
      rw [hc.pcbOf]
      by_cases hci : c = i
      · -- the caller that is saved is the one that executes
        rw [hci, Function.update_self] at ho
        rw [if_pos hci, ← Option.some.inj ho]
        cases he with
        | execute _ _ hpt => rw [Event.executor, hpt]; rfl
        | boot => rfl
        | restart => rfl
      · rw [Function.update_of_ne hci] at ho
        rw [if_neg hci]
        exact h.saved c o ho
    · dsimp only at hq
      rw [hctl] at hq
      exact absurd hq (by simp)
    · exact absurd hp (by simp [Point.user?])

/-- A step within the processes. -/
lemma within {k k' : Kernel} {origin : ℤ → Option Origin} (h : Framed ⟨k, origin⟩)
    (hs : SameProcs k k') (hm : k.ctl.Moves k'.ctl) : Framed ⟨k', origin⟩ := by
  constructor
  · intro c o ho
    obtain ⟨fds, hc⟩ := hs.pcbOf c
    dsimp only
    rw [hc]
    exact h.saved c o ho
  · intro q hq
    dsimp only at hq ⊢
    rw [hs.thisPcb, hs.cur]
    rcases hm.point with heq | ⟨p, -, hp⟩
    · exact h.restart q (heq.symm.trans hq)
    · rw [hq] at hp
      exact absurd hp (by simp [Point.proc])

/-- A tick. -/
lemma tick {k k' : Kernel} {origin : ℤ → Option Origin} (h : Framed ⟨k, origin⟩)
    (ht : Ticked k k') : Framed ⟨k', origin⟩ := by
  constructor
  · intro c o ho
    have hsaved : (k'.pcbOf c).saved = (k.pcbOf c).saved := by
      rw [ht.pcbOf]
      split
      · rename_i hc
        rw [hc.1]
      · rfl
    exact (congrArg Caller.origin hsaved).trans (h.saved c o ho)
  · intro q hq
    rcases ht.next with ⟨-, hctl, -⟩ | ⟨-, hthis, -⟩
    · dsimp only at hq
      rw [hctl] at hq
      exact absurd hq (by simp)
    · exact hthis

/-- **The invariant step.**  A step keeps the frames, and `syscall_halt` goes back into the frame
of the process that executed the one that ends. -/
theorem step {e : Event} (h : Framed F) (hs : F.step img e = some F') :
    Framed F' ∧ ∀ p, e.halts → F'.kernel.ctl.point.user? = some p →
      (F.kernel.pcbOf F.kernel.cur).saved = .linkage p := by
  obtain ⟨k', hk, rfl⟩ := Option.map_eq_some_iff.1 hs
  obtain ⟨k, origin⟩ := F
  dsimp only at h hk ⊢
  have hstep : Machine.step img e ⟨k, fun _ => []⟩ = some ⟨k', liveAfter e k k' fun _ => []⟩ := by
    rw [Machine.step, hk]
    rfl
  have heff := step_effect hstep
  cases hstarts : e.starts with
  | true =>
    obtain ⟨caller, command, buf, he⟩ := starts_of_step hstarts hk
    exact h.started he hk
  | false =>
    have hkeep : originAfter e k k' origin = origin := by
      rw [originAfter, hstarts]
      rfl
    rw [hkeep]
    cases hends : e.ends with
    | true =>
      obtain rfl := step_of_ends hends hk
      obtain ⟨hsaved, hrestart, huser⟩ := syscallHalt_frame k
      exact ⟨⟨fun c o ho => (congrArg Caller.origin (hsaved c)).trans (h.saved c o ho), hrestart⟩,
        fun p _ hp => huser p hp⟩
    | false =>
      refine ⟨?_, fun p he => absurd he
        (by cases e <;> simp_all [Event.halts, Event.starts, Event.ends])⟩
      dsimp only at heff
      generalize liveAfter e k k' (fun _ => []) = live at heff
      cases heff with
      | same hsame _ hmoves => exact h.within hsame hmoves
      | called _ _ hsame _ _ hmoves => exact h.within hsame hmoves
      | tick _ ht => exact h.tick ht
      | created he => exact absurd hstarts (by cases he <;> simp [Event.starts])
      | faulted he => exact absurd hstarts (by cases he <;> simp [Event.starts])
      | failed he => exact absurd hstarts (by cases he <;> simp [Event.starts])
      | halted he => exact absurd hends (by rcases he with rfl | rfl <;> simp [Event.ends])

end Framed

/-! ### Every value that is returned -/

/-- The status as a value is the result 0 exactly when the process passed it. -/
lemma Ending.result_eq_zero (ending : Ending) : 0 = ending.result ↔ ending = .halted 0 := by
  cases ending with
  | halted status =>
    constructor
    · intro h
      have hlt : status.toNat < 256 := status.toNat_lt
      have hint := congrArg Int32.toInt h
      rw [Ending.result, Int32.toInt_ofNat_of_lt (by omega)] at hint
      have hzero : status.toNat = (0 : UInt8).toNat := by
        have h0 : Int32.toInt 0 = 0 := rfl
        rw [h0] at hint
        exact (Int.natCast_eq_zero.1 hint.symm).trans rfl
      rw [UInt8.toNat_inj.1 hzero]
    · intro h
      cases h
      rfl
  | raised => exact ⟨fun h => absurd h (by decide), fun h => absurd h (by simp)⟩

/-- So is what the shell prints. -/
lemma Ending.report_eq_nothing (ending : Ending) :
    shellReport 0 = ending.report ↔ ending = .halted 0 := by
  have hzero : shellReport 0 = .nothing := by decide
  rw [hzero]
  cases ending with
  | halted status =>
    rw [Ending.report, Ending.halted.injEq]
    split
    · rename_i h
      exact ⟨fun _ => h, fun _ => rfl⟩
    · rename_i h
      exact ⟨fun h' => absurd h' (by decide), fun h' => absurd h' h⟩
  | raised => exact ⟨fun h => absurd h (by decide), fun h => absurd h (by simp)⟩

/-- The records are right about who executed whom, and every value is 0. -/
structure Recorded (X : Exits) : Prop where
  framed : Framed X.family
  parent : ∀ r ∈ X.returns, ∀ o ∈ r.executor, o = .program r.parent
  value : ∀ r ∈ X.returns, r.value = 0

lemma executeReturn_eq (e : Event) (k : Kernel) (status : UInt8) :
    e.executeReturn k status = 0 := by
  cases e <;> rfl

/-- **The invariant step.** -/
theorem Recorded.step {img : Image} {a : Act} {X X' : Exits} (h : Recorded X)
    (hs : X.step img a = some X') : Recorded X' := by
  obtain ⟨F', hF, rfl⟩ := Option.map_eq_some_iff.1 hs
  obtain ⟨hframed, hback⟩ := h.framed.step hF
  have hreturns : ∀ r ∈ returnsAfter a.event X.family F'
      (haltingAfter a X.family.kernel X.halting X.family.kernel.scheduledTerm) X.returns,
      (∀ o ∈ r.executor, o = .program r.parent) ∧ r.value = 0 := by
    intro r hr
    have hold : r ∈ X.returns → (∀ o ∈ r.executor, o = .program r.parent) ∧ r.value = 0 :=
      fun hr => ⟨h.parent r hr, h.value r hr⟩
    rw [returnsAfter] at hr
    split at hr
    · rename_i hhalts
      cases hp : F'.kernel.ctl.point.user? with
      | none =>
        rw [hp] at hr
        exact hold hr
      | some p =>
        rw [hp] at hr
        rcases List.mem_cons.1 hr with rfl | hr
        · refine ⟨fun o ho => ?_, executeReturn_eq ..⟩
          rw [← h.framed.saved _ o ho, hback p hhalts hp]
          rfl
        · exact hold hr
    · exact hold hr
  exact ⟨hframed, fun r hr => (hreturns r hr).1, fun r hr => (hreturns r hr).2⟩

lemma recorded_boot (l : Layout) (pg : Paging) (vram : ℕ → ℕ → UInt8) (mem : ℤ → Pcb) :
    Recorded (Exits.boot l pg vram mem) :=
  ⟨⟨fun c o ho => absurd ho (by simp [Exits.boot, Family.boot]),
      fun q hq => absurd hq (by simp [Exits.boot, Family.boot, entryState])⟩,
    fun r hr => absurd hr List.not_mem_nil, fun r hr => absurd hr List.not_mem_nil⟩

/-- Every state of a run has right records. -/
lemma recorded_of_reach {img : Image} {l : Layout} {pg : Paging} {vram : ℕ → ℕ → UInt8}
    {mem : ℤ → Pcb} {X : Exits}
    (h : Runs.Reach (Exits.step img) (fun _ _ => True) (Exits.boot l pg vram mem) X) :
    Recorded X :=
  h.invariant (P := Recorded) (recorded_boot l pg vram mem) fun _ _ _ hX _ hs => hX.step hs

/-- A `syscall_execute` returns to the program that called it. -/
theorem returns_to_executor (img : Image) (l : Layout) (pg : Paging) (vram : ℕ → ℕ → UInt8)
    (mem : ℤ → Pcb) (X : Exits)
    (h : Runs.Reach (Exits.step img) (fun _ _ => True) (Exits.boot l pg vram mem) X) :
    ∀ r ∈ X.returns, ∀ o ∈ r.executor, o = .program r.parent :=
  (recorded_of_reach h).parent

/-- **Exit statuses.**  In every run, the value that a `syscall_execute` returns when the process
it started has ended is the one the parent should get if and only if the process passed the
status 0 to `syscall_halt`; the same holds of what the shell prints about it. -/
theorem execute_returns_status (img : Image) (l : Layout) (pg : Paging) (vram : ℕ → ℕ → UInt8)
    (mem : ℤ → Pcb) (X : Exits)
    (h : Runs.Reach (Exits.step img) (fun _ _ => True) (Exits.boot l pg vram mem) X) :
    ∀ r ∈ X.returns, (r.value = r.ending.result ↔ r.ending = .halted 0) ∧
      (shellReport r.value = r.ending.report ↔ r.ending = .halted 0) := by
  intro r hr
  rw [(recorded_of_reach h).value r hr]
  exact ⟨r.ending.result_eq_zero, r.ending.report_eq_nothing⟩

/-- The kernel at boot on zero memory. -/
def sampleExits : Exits := Exits.boot sampleLayout samplePaging (fun _ _ => 0) samplePcbs

/-- The nested programs both halt with the status 0. -/
def haltBoth : List Act :=
  (nestedPrograms ++ ([.halt, .tick, .tick, .tick, .halt] : List Event)).map fun e => ⟨e, 0⟩

/-- Both executes return 0, as they should. -/
theorem execute_returns_status_nested :
    ∃ X r r', Runs.run (Exits.step sampleImage) haltBoth sampleExits = some X ∧
      X.returns = [r, r'] ∧ (r.parent, r.child, r.ending) = (2, 3, .halted 0) ∧
      (r'.parent, r'.child, r'.ending) = (3, 4, .halted 0) ∧
      r.value = r.ending.result ∧ r'.value = r'.ending.result := by
  have hrun : (Runs.run (Exits.step sampleImage) haltBoth sampleExits).any
      (fun X => X.returns.map (fun r => (r.parent, r.child, r.ending)) =
        [(2, 3, .halted 0), (3, 4, .halted 0)]) = true := by
    decide +kernel
  obtain ⟨X, hX, hreturns⟩ := (Option.any_eq_true _ _).1 hrun
  have hright := execute_returns_status sampleImage sampleLayout samplePaging _ _ X
    (Runs.reach_of_run (fun _ _ => trivial) hX)
  obtain ⟨r, rs, hrs, hr, hmap⟩ := List.map_eq_cons_iff.1 (of_decide_eq_true hreturns)
  obtain ⟨r', rs', rfl, hr', hmap'⟩ := List.map_eq_cons_iff.1 hmap
  obtain rfl := List.map_eq_nil_iff.1 hmap'
  rw [hrs] at hright
  refine ⟨X, r, r', hX, hrs, hr, hr', ?_, ?_⟩
  · exact (hright r (by simp)).1.2 (congrArg (fun x => x.2.2) hr)
  · exact (hright r' (by simp)).1.2 (congrArg (fun x => x.2.2) hr')

/-- The inner program divides by zero, and the outer one halts with the status 5. -/
def endBoth : List Act :=
  (nestedPrograms ++ ([.raise .divideError, .report, .report, .report, .raisedHalt, .halt] :
    List Event)).map fun e => ⟨e, 5⟩

/-- Both executes return 0, and the shell takes both for a normal end. -/
theorem status_not_returned :
    ∃ X r r', Runs.Reach (Exits.step sampleImage) (fun _ _ => True) sampleExits X ∧
      X.returns = [r, r'] ∧ r.ending = .halted 5 ∧ r'.ending = .raised ∧
      r.value = 0 ∧ r.value ≠ r.ending.result ∧ r'.value = 0 ∧ r'.value ≠ r'.ending.result ∧
      shellReport r.value = shellReport r'.value := by
  have hrun : (Runs.run (Exits.step sampleImage) endBoth sampleExits).any
      (fun X => X.returns.map (fun r => (r.ending, r.value)) = [(.halted 5, 0), (.raised, 0)])
      = true := by
    decide +kernel
  obtain ⟨X, hX, hreturns⟩ := (Option.any_eq_true _ _).1 hrun
  obtain ⟨r, rs, hrs, hr, hmap⟩ := List.map_eq_cons_iff.1 (of_decide_eq_true hreturns)
  obtain ⟨r', rs', rfl, hr', hmap'⟩ := List.map_eq_cons_iff.1 hmap
  obtain rfl := List.map_eq_nil_iff.1 hmap'
  obtain ⟨hending, hvalue⟩ := Prod.mk.inj hr
  obtain ⟨hending', hvalue'⟩ := Prod.mk.inj hr'
  refine ⟨X, r, r', Runs.reach_of_run (fun _ _ => trivial) hX, hrs, hending, hending', hvalue, ?_,
    hvalue', ?_, ?_⟩
  · rw [hvalue, hending]
    decide
  · rw [hvalue', hending']
    decide
  · rw [hvalue, hvalue']

end WnajOS
