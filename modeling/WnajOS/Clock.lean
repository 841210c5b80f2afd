import WnajOS.Scheduler

/-!
# The machine with the interrupts of the RTC

`rtc_read` sets the counter of the scheduled terminal and spins until it is zero, with
interrupts enabled; `rtc_handler` decrements the counters of all terminals at each interrupt.
The index of the counter is `scheduled_term`, and the loop reads it anew at each turn.  Here
the two are events of their own, so that ticks, other calls and interrupts come between the
start and the end of a read.

For each process that is in the loop the machine notes the terminal and the rate at which the
read began and the interrupts handled since, and for each process the rate that it has set
itself.  No code reads these notes.
-/

namespace WnajOS

/-! ### `rtc_handler` -/

namespace Rtc

/-- The loop of `rtc_handler`, with `n` terminals left, at the terminal `j`. -/
def handlerFrom : (n j : ℕ) → Rtc → Rtc
  | 0, _, r => r
  | n + 1, j, r =>
    if r.counter j ≠ 0 then
      handlerFrom n (j + 1) { r with counter := Function.update r.counter j (r.counter j - 1) }
    else handlerFrom n (j + 1) r

/-- What `rtc_handler` does to the counters. -/
def rtcHandler (r : Rtc) : Rtc := handlerFrom numTtys 0 r

lemma handlerFrom_freq (n j : ℕ) (r : Rtc) : (handlerFrom n j r).freq = r.freq := by
  induction n generalizing j r with
  | zero => rfl
  | succ n ih =>
    rw [handlerFrom]
    split
    · rw [ih]
    · rw [ih]

lemma handlerFrom_counter (n j : ℕ) (r : Rtc) (t : ℕ) : (handlerFrom n j r).counter t =
    if j ≤ t ∧ t < j + n ∧ r.counter t ≠ 0 then r.counter t - 1 else r.counter t := by
  induction n generalizing j r with
  | zero => rw [handlerFrom, if_neg (by omega)]
  | succ n ih =>
    rw [handlerFrom]
    by_cases ht : t = j
    · subst ht
      by_cases h0 : r.counter t = 0
      · simp [h0, ih]
      · rw [if_pos h0, ih, if_neg (by omega), if_pos ⟨le_rfl, by omega, h0⟩]
        exact Function.update_self ..
    · have hiff : (j + 1 ≤ t ∧ t < j + 1 + n) ↔ (j ≤ t ∧ t < j + (n + 1)) := by omega
      split
      · rw [ih]
        simp only [Function.update_of_ne ht, ← and_assoc, hiff]
      · rw [ih]
        simp only [← and_assoc, hiff]

/-- `rtc_handler` decrements every counter of a terminal that is not zero. -/
lemma rtcHandler_counter (r : Rtc) {t : ℕ} (ht : t < numTtys) :
    r.rtcHandler.counter t = if r.counter t ≠ 0 then r.counter t - 1 else r.counter t := by
  rw [rtcHandler, handlerFrom_counter]
  exact if_congr (by simp [ht]) rfl rfl

/-- `rtc_read` sets the counter of its terminal, if it does not raise the divide error. -/
lemma rtcRead_eq_some {term : ℕ} {r r' : Rtc} (h : r.rtcRead term = some r') : r.freq term ≠ 0 ∧
    r' = { r with counter := Function.update r.counter term (512 / r.freq term) } := by
  rw [rtcRead] at h
  split at h
  · exact absurd h (by simp)
  · rename_i hne
    exact ⟨hne, (Option.some.inj h).symm⟩

end Rtc

/-! ### Calls on the RTC -/

/-- The call is a read that comes to `rtc_read`. -/
def ReadsRtc (k : Kernel) : Call → Prop
  | .read fd buf nbytes =>
    ¬(fd < 0 ∨ fd ≥ 8 ∨ buf.isNone ∨ nbytes < 0 ∨ (k.pcb.fdArr (fdIndex fd)).flags = 0) ∧
      (k.pcb.fdArr (fdIndex fd)).fileOps = some .rtc
  | _ => False

instance (k : Kernel) : DecidablePred (ReadsRtc k)
  | .openFile _ => .isFalse id
  | .close _ => .isFalse id
  | .read _ _ _ => inferInstanceAs (Decidable (¬_ ∧ _))
  | .write _ _ _ => .isFalse id

/-- The rate that a call sets for its terminal: an `open` that comes to `rtc_open`, or a `write`
that `rtc_write` accepts. -/
def rateSet? (img : Image) (k : Kernel) : Call → Option Int32
  | .openFile filename =>
    match readDentryByName img filename, vacantFrom k.pcb.fdArr 7 0 with
    | some d, some fdIdx =>
      match openAt k fdIdx d with
      | .ok _ => if (newEntry (k.pcb.fdArr fdIdx) d).fileOps = some .rtc then some 2 else none
      | .error _ => none
    | _, _ => none
  | .write fd (some buf) nbytes =>
    if ¬(fd < 0 ∨ fd ≥ 8 ∨ nbytes < 0 ∨ (k.pcb.fdArr (fdIndex fd)).flags = 0) ∧
        (k.pcb.fdArr (fdIndex fd)).fileOps = some .rtc ∧
        Rtc.word buf &&& (Rtc.word buf - 1) = 0 then
      some (Rtc.word buf)
    else none
  | _ => none

/-- The process that sets the rate of the scheduled terminal by the event, and the rate. -/
def setsRate? (img : Image) (e : Event) (k : Kernel) : Option (ℤ × Int32) :=
  match k.ctl.point.runs, e.call? k with
  | some p, some c => (rateSet? img k c).map fun rate => (p, rate)
  | _, _ => none

/-! ### The machine -/

/-- What happens next. -/
inductive ClockEvent
  /-- an interrupt of the RTC -/
  | rtc
  /-- a step of the kernel or of a program -/
  | other (e : Event)

/-- A read that has not returned: the terminal and its rate when the read began, and how many
interrupts of the RTC have been handled since. -/
structure Wait where
  term : ℕ
  rate : Int32
  handled : ℕ
deriving DecidableEq

/-- The machine, the reads in the loop of `rtc_read` by process, and the rate that each process
has set itself. -/
structure Clock where
  machine : Machine
  waits : ℤ → Option Wait
  own : ℤ → Option Int32

namespace Clock

/-- The machine at boot. -/
def boot (m : Machine) : Clock := ⟨m, fun _ => none, fun _ => none⟩

/-- An interrupt of the RTC. -/
def interrupt (C : Clock) : Clock :=
  let k := C.machine.kernel
  { C with
    machine := { C.machine with kernel := { k with rtc := k.rtc.rtcHandler } }
    waits := fun p => (C.waits p).map fun w => { w with handled := w.handled + 1 } }

/-- `rtc_read` up to its loop, called by the process `p`; `none` for the divide error, with which
the call does not come to its loop. -/
def enterLoop (p : ℤ) (c : Call) (C : Clock) : Option Clock :=
  let k := C.machine.kernel
  let wait : Wait := ⟨k.scheduledTerm, k.rtc.freq k.scheduledTerm, 0⟩
  (k.rtc.rtcRead k.scheduledTerm).map fun rtc =>
    { C with
      machine := { C.machine with kernel := { k with rtc := rtc, ctl := ⟨.sys p c, k.kstack⟩ } }
      waits := Function.update C.waits p (some wait) }

/-- The end of the loop of `rtc_read`, and its return. -/
def leaveLoop (p : ℤ) (C : Clock) : Option Clock :=
  let k := C.machine.kernel
  if k.rtc.counter k.scheduledTerm = 0 then
    some { C with
      machine := { C.machine with kernel := { k with ctl := ⟨.user p, k.kstack⟩ } }
      waits := Function.update C.waits p none }
  else none

/-- The notes after a step: a process that raises an exception does not come back to its loop,
and a new process has neither read nor set anything. -/
def settle (img : Image) (e : Event) (m : Machine) (C : Clock) : Clock :=
  let k := C.machine.kernel
  let x := m.kernel.ctl.point
  match if e.starts then x.entering? else none with
  | some i => ⟨m, Function.update C.waits i none, Function.update C.own i none⟩
  | none =>
    { machine := m
      waits :=
        match x.raising? with
        | some p => Function.update C.waits p none
        | none => C.waits
      own :=
        match setsRate? img e k with
        | some (p, rate) => Function.update C.own p (some rate)
        | none => C.own }

/-- A step that has nothing to do with the loop of `rtc_read`. -/
def otherStep (img : Image) (e : Event) (C : Clock) : Option Clock :=
  (C.machine.step img e).map fun m => C.settle img e m

/-- One step of the machine. -/
def step (img : Image) (e : ClockEvent) (C : Clock) : Option Clock :=
  match e with
  | .rtc => if C.machine.kernel.ctl.point.Enabled then some C.interrupt else none
  | .other e =>
    match e, C.machine.kernel.ctl.point with
    | .begin c, .user p =>
      if ReadsRtc C.machine.kernel c then C.enterLoop p c else C.otherStep img (.begin c)
    | .finish, .sys p _ =>
      if (C.waits p).isSome then C.leaveLoop p else C.otherStep img .finish
    | e, _ => C.otherStep img e

/-- The process that the step creates. -/
def created? (e : Event) (k : Kernel) : Option ℤ :=
  if e.starts then k.ctl.point.entering? else none

lemma settle_own (img : Image) (e : Event) (m : Machine) (C : Clock) :
    (C.settle img e m).own = match created? e m.kernel, setsRate? img e C.machine.kernel with
      | some i, _ => Function.update C.own i none
      | none, some (p, rate) => Function.update C.own p (some rate)
      | none, none => C.own := by
  rw [settle, created?]
  cases (if e.starts then m.kernel.ctl.point.entering? else none) with
  | some i => rfl
  | none => cases setsRate? img e C.machine.kernel <;> rfl

lemma settle_machine (img : Image) (e : Event) (m : Machine) (C : Clock) :
    (C.settle img e m).machine = m := by
  rw [settle]
  split
  · rfl
  · rfl

lemma step_other (img : Image) (e : Event) (C : Clock) : step img (.other e) C =
    match e, C.machine.kernel.ctl.point with
    | .begin c, .user p =>
      if ReadsRtc C.machine.kernel c then C.enterLoop p c else C.otherStep img (.begin c)
    | .finish, .sys p _ =>
      if (C.waits p).isSome then C.leaveLoop p else C.otherStep img .finish
    | e, _ => C.otherStep img e := rfl

/-- The loop ends with the counter at zero. -/
lemma leaveLoop_eq_some {p : ℤ} {C C' : Clock} (hs : C.leaveLoop p = some C') :
    C.machine.kernel.rtc.counter C.machine.kernel.scheduledTerm = 0 ∧
      C' = { C with
        machine := { C.machine with
          kernel := { C.machine.kernel with ctl := ⟨.user p, C.machine.kernel.kstack⟩ } }
        waits := Function.update C.waits p none } := by
  rw [leaveLoop] at hs
  dsimp only at hs
  split at hs
  · rename_i h0
    exact ⟨h0, (Option.some.inj hs).symm⟩
  · exact absurd hs (by simp)

/-- What a step of the machine is. -/
inductive Steps (img : Image) (C : Clock) : ClockEvent → Clock → Prop
  | interrupt : Steps img C .rtc C.interrupt
  | enterLoop {C' : Clock} {p : ℤ} {c : Call} (hp : C.machine.kernel.ctl.point = .user p)
      (hs : C.enterLoop p c = some C') : Steps img C (.other (.begin c)) C'
  | leaveLoop {C' : Clock} {p : ℤ} {c : Call} (hp : C.machine.kernel.ctl.point = .sys p c)
      (hs : C.leaveLoop p = some C') : Steps img C (.other .finish) C'
  | otherStep {C' : Clock} {e : Event}
      (hfinish : e = .finish → ∀ p c, C.machine.kernel.ctl.point = .sys p c → C.waits p = none)
      (hs : C.otherStep img e = some C') : Steps img C (.other e) C'

lemma step_cases {img : Image} {e : ClockEvent} {C C' : Clock} (hs : step img e C = some C') :
    Steps img C e C' := by
  cases e with
  | rtc =>
    obtain ⟨-, heq⟩ := Option.ite_none_right_eq_some.1 hs
    obtain rfl := Option.some.inj heq
    exact .interrupt
  | other e =>
    rw [step_other] at hs
    split at hs
    · rename_i c p hp
      split at hs
      · exact .enterLoop hp hs
      · exact .otherStep (fun he => absurd he (by simp)) hs
    · rename_i p c hp
      split at hs
      · exact .leaveLoop hp hs
      · rename_i hnone
        refine .otherStep (fun _ q c' hq => ?_) hs
        obtain ⟨rfl, -⟩ := Point.sys.inj (hp.symm.trans hq)
        simpa using hnone
    · rename_i hbegin hfinish
      exact .otherStep (fun he p c hp => absurd hp (hfinish p c he)) hs

end Clock

end WnajOS
