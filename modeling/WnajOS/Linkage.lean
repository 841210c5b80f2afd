import WnajOS.Library.Runs
import WnajOS.Library.SharedCell
import WnajOS.ProcessSteps

/-!
# The return of a system call (`ass_link_handler.S`)

`syscall_linkage` puts the result of the handler in the global `store_return`, restores the
registers of the caller and loads the result from there.  A handler that returns with
interrupts disabled is not disturbed between the two instructions.  `terminal_write`,
`rtc_read` and an `open` that has printed its message return with interrupts enabled; then a
tick can come before the store or before the load, and the system calls of other processes use
the same global.

The machine of this file has the machine of `Process` inside, with the two instructions as
steps of their own.  The global is a cell that the processes share.
-/

namespace WnajOS

/-! ### Requests -/

/-- A system call with the arguments that its handler looks at. -/
inductive Request
  | halt
  | execute (command : Str) (buf : Buf)
  | descriptor (c : Call)
  | getargs (buf : Buf) (nbytes : Int32)
  | vidmap (screenStart : UInt32)
  | sethandler (signum : Int32)
  | sigreturn

/-- The index of the handler in `syscall_jumptable`. -/
def Request.number : Request → UInt32
  | .halt => 1
  | .execute _ _ => 2
  | .descriptor (.read _ _ _) => 3
  | .descriptor (.write _ _ _) => 4
  | .descriptor (.openFile _) => 5
  | .descriptor (.close _) => 6
  | .getargs _ _ => 7
  | .vidmap _ => 8
  | .sethandler _ => 9
  | .sigreturn => 10

/-- `USER_VIRT_MEM`. -/
def userVirtMem : UInt32 := 0x8000000

/-- `syscall_vidmap`.  The last bytes of the program page have no room for the address: the store
is a page fault, for which `none` stands. -/
def syscallVidmap (screenStart : UInt32) : Option Int32 :=
  if screenStart < userVirtMem ∨ screenStart ≥ userVirtMem + 0x400000 then some (-1)
  else if screenStart > userVirtMem + 0x400000 - 4 then none
  else some 0

/-- `syscall_sethandler`. -/
def syscallSethandler (signum : Int32) : Int32 :=
  if signum > 4 ∨ signum < 0 then -1 else 0

/-- `syscall_sigreturn`. -/
def syscallSigreturn : Int32 := -1

/-- A handler that enables interrupts and has not disabled them when it returns. -/
def ReturnsEnabled (k : Kernel) : Call → Prop
  | .read fd _ _ => (k.pcb.fdArr (fdIndex fd)).fileOps ≠ some .stdin
  | _ => True

instance (k : Kernel) : DecidablePred (ReturnsEnabled k)
  | .read fd _ _ => inferInstanceAs (Decidable ((k.pcb.fdArr (fdIndex fd)).fileOps ≠ some .stdin))
  | .openFile _ => .isTrue trivial
  | .close _ => .isTrue trivial
  | .write _ _ _ => .isTrue trivial

/-! ### The machine with its linkage -/

/-- What the caller of a system call finds: the value that its handler returned last, and `eax` after
the `iret`. -/
structure Found where
  process : ℤ
  returned : Option Int32
  eax : Int32
deriving DecidableEq

/-- The machine, `eax` of the processes whose handler has returned to the linkage with interrupts
enabled, the cell `store_return` with the processes that have stored their result and not
loaded it, what the handlers of each process have returned last, and what the callers have found so
far.  No code reads `handled` and `found`. -/
structure Linkage where
  machine : Machine
  returned : ℤ → Option Int32
  storeReturn : SharedCell ℤ Int32
  handled : ℤ → Option Int32
  found : List Found

/-- The machine with its linkage at boot. -/
def Linkage.boot (m : Machine) : Linkage := ⟨m, fun _ => none, ⟨0, []⟩, fun _ => none, []⟩

/-- What happens next. -/
inductive LinkEvent
  /-- `int 0x80`, with the number in `eax` -/
  | trap (eax : UInt32) (request : Request)
  /-- a handler that has enabled interrupts returns to the linkage -/
  | back
  /-- `movl %eax,store_return` -/
  | store
  /-- `movl store_return,%eax` and `iret` -/
  | load
  /-- an interrupt, an exception, or what the kernel does by itself -/
  | other (e : Event)

/-- What a step does to the results in the linkage. -/
inductive Action
  /-- nothing -/
  | none
  /-- `invalid_cmd` -/
  | refuse (p : ℤ)
  /-- a handler returns with interrupts enabled -/
  | back (p : ℤ) (r : Int32)
  /-- the store -/
  | store (p : ℤ) (r : Int32)
  /-- the load -/
  | load (p : ℤ)
  /-- a handler returns with interrupts disabled: the store and the load -/
  | pass (p : ℤ) (r : Int32)

/-- The process whose handler has returned the result that the action passes on. -/
def Action.handled? : Action → Option (ℤ × Int32)
  | .refuse p => some (p, -1)
  | .back p r => some (p, r)
  | .pass p r => some (p, r)
  | _ => .none

namespace Linkage

/-- The process stands in the linkage, after the return of its handler. -/
def Inside (L : Linkage) (p : ℤ) : Prop :=
  (L.returned p).isSome ∨ (L.storeReturn.owed.lookup p).isSome

instance (L : Linkage) (p : ℤ) : Decidable (L.Inside p) := inferInstanceAs (Decidable (_ ∨ _))

/-- The process of a program that can go on by itself. -/
def runner? (L : Linkage) : Option ℤ :=
  match L.machine.kernel.ctl.point with
  | .user p => if L.Inside p then none else some p
  | _ => none

/-- The return of `syscall_execute` after a `syscall_halt` that has come back to a caller. -/
def returnOfExecute (m : Machine) : Action :=
  match m.kernel.ctl.point with
  | .user p => .pass p 0
  | _ => .none

/-- A handler that stores in the memory of the program only, and returns or comes to a page fault. -/
def dispatchUser (img : Image) (p : ℤ) (L : Linkage) : Option Int32 → Option (Machine × Action)
  | some r => some (L.machine, .pass p r)
  | none => (L.machine.step img (.raise .pageFault)).map fun m => (m, .none)

/-- The handler of a request, called by the process `p`. -/
def dispatch (img : Image) (p : ℤ) (L : Linkage) : Request → Option (Machine × Action)
  | .halt => (L.machine.step img .halt).map fun m => (m, returnOfExecute m)
  | .execute command buf => (L.machine.step img (.execute command buf)).map fun m =>
    match m.kernel.ctl.point with
    | .user _ => (m, .pass p (-1))
    | _ => (m, .none)
  | .descriptor c =>
    if EnablesInterrupts img L.machine.kernel c then
      (L.machine.step img (.begin c)).map fun m => (m, .none)
    else (L.machine.step img (.call c)).map fun m =>
      match L.machine.kernel.call img c with
      | .done (r, _) => (m, .pass p r)
      | _ => (m, .none)
  | .getargs buf nbytes =>
    L.dispatchUser img p ((syscallGetargs L.machine.kernel.pcb buf nbytes).map Prod.fst)
  | .vidmap screenStart => L.dispatchUser img p (syscallVidmap screenStart)
  | .sethandler signum => some (L.machine, .pass p (syscallSethandler signum))
  | .sigreturn => some (L.machine, .pass p syscallSigreturn)

/-- The end of a handler that has enabled interrupts. -/
def handlerBack (img : Image) (L : Linkage) : Option (Machine × Action) :=
  match L.machine.kernel.ctl.point with
  | .sys p c => (L.machine.step img .finish).map fun m =>
    match L.machine.kernel.call img c with
    | .done (r, _) => (m, if ReturnsEnabled L.machine.kernel c then .back p r else .pass p r)
    | _ => (m, .none)
  | _ => none

/-- A step that is no instruction of the linkage. -/
def otherStep (img : Image) (L : Linkage) (e : Event) : Option (Machine × Action) :=
  match e with
  | .execute _ _ => none
  | .call _ => none
  | .begin _ => none
  | .finish => none
  | .halt => none
  | .raise _ =>
    match L.machine.kernel.ctl.point with
    | .user p => if L.Inside p then none else (L.machine.step img e).map fun m => (m, .none)
    | _ => (L.machine.step img e).map fun m => (m, .none)
  | .raisedHalt => (L.machine.step img e).map fun m => (m, returnOfExecute m)
  | _ => (L.machine.step img e).map fun m => (m, .none)

/-- The machine after an event, and what becomes of the results; `none` where the event cannot
happen. -/
def action (img : Image) (e : LinkEvent) (L : Linkage) : Option (Machine × Action) :=
  match e with
  | .trap eax request =>
    match L.runner? with
    | some p =>
      if eax > 10 ∨ eax ≤ 0 then some (L.machine, .refuse p)
      else if request.number = eax then L.dispatch img p request
      else none
    | none => none
  | .back => L.handlerBack img
  | .store =>
    match L.machine.kernel.ctl.point with
    | .user p => (L.returned p).map fun r => (L.machine, .store p r)
    | _ => none
  | .load =>
    match L.machine.kernel.ctl.point with
    | .user p =>
      if (L.storeReturn.owed.lookup p).isSome then some (L.machine, .load p) else none
    | _ => none
  | .other e => L.otherStep img e

/-- The process `p` finds `eax` when it goes on. -/
def find (p : ℤ) (eax : Int32) (L : Linkage) : Linkage :=
  { L with found := ⟨p, L.handled p, eax⟩ :: L.found }

/-- `movl %eax,store_return`. -/
def storeResult (p : ℤ) (r : Int32) (L : Linkage) : Linkage :=
  { L with returned := Function.update L.returned p none, storeReturn := L.storeReturn.put p r }

/-- `movl store_return,%eax`, by a process that has stored its result. -/
def loadResult (p : ℤ) (L : Linkage) : Linkage :=
  { L.find p L.storeReturn.value with storeReturn := L.storeReturn.drop p }

/-- The results after a step. -/
def perform (L : Linkage) : Action → Linkage
  | .none => L
  | .refuse p => L.find p (-1)
  | .back p r => { L with returned := Function.update L.returned p (some r) }
  | .store p r => L.storeResult p r
  | .load p => L.loadResult p
  | .pass p r => (L.storeResult p r).loadResult p

/-- A process that an exception takes out of the linkage does not come back to it. -/
def abandon (p : ℤ) (L : Linkage) : Linkage :=
  { L with returned := Function.update L.returned p none, storeReturn := L.storeReturn.drop p }

/-- The machine after a step. -/
def settle (m : Machine) (L : Linkage) : Linkage :=
  match m.kernel.ctl.point.raising? with
  | some p => ({ L with machine := m } : Linkage).abandon p
  | none => { L with machine := m }

end Linkage

/-! ### What the handlers return -/

/-- What the handler of a request returns to the process `p`, if it returns with interrupts
disabled. -/
def Request.result? (img : Image) (k : Kernel) (p : ℤ) : Request → Option Int32
  | .halt => none
  | .execute command buf =>
    match syscallExecute img k (.linkage p) command buf with
    | .fails => some (-1)
    | _ => none
  | .descriptor c =>
    if EnablesInterrupts img k c then none
    else
      match k.call img c with
      | .done (r, _) => some r
      | _ => none
  | .getargs buf nbytes => (syscallGetargs k.pcb buf nbytes).map Prod.fst
  | .vidmap screenStart => syscallVidmap screenStart
  | .sethandler signum => some (syscallSethandler signum)
  | .sigreturn => some syscallSigreturn

/-- The process to which `syscall_execute` returns, by a `syscall_halt` that leads to the machine, and
what it returns. -/
def executeReturn? (m : Option Machine) : Option (ℤ × Int32) :=
  m.bind fun m => m.kernel.ctl.point.user?.map fun p => (p, 0)

/-- The process to which the handler of a request returns, called by the process `p`, and the value
that it returns. -/
def Request.handled? (img : Image) (p : ℤ) (L : Linkage) : Request → Option (ℤ × Int32)
  | .halt => executeReturn? (L.machine.step img .halt)
  | request => (request.result? img L.machine.kernel p).map fun r => (p, r)

/-- The process whose handler returns in the step, and the value that it returns; -1 for a number
that is not in the table. -/
def LinkEvent.handled? (img : Image) (e : LinkEvent) (L : Linkage) : Option (ℤ × Int32) :=
  let k := L.machine.kernel
  match e with
  | .trap eax request =>
    L.runner?.bind fun p =>
      if eax > 10 ∨ eax ≤ 0 then some (p, -1) else request.handled? img p L
  | .back =>
    match k.ctl.point with
    | .sys p c =>
      match k.call img c with
      | .done (r, _) => some (p, r)
      | _ => none
    | _ => none
  | .other .raisedHalt => executeReturn? (L.machine.step img .raisedHalt)
  | _ => none

namespace Linkage

/-- The value that a handler returns is noted. -/
def handle (L : Linkage) : Option (ℤ × Int32) → Linkage
  | some (p, r) => { L with handled := Function.update L.handled p (some r) }
  | none => L

/-- One step of the machine with its linkage. -/
def step (img : Image) (e : LinkEvent) (L : Linkage) : Option Linkage :=
  (L.action img e).map fun (m, a) => ((L.settle m).handle (e.handled? img L)).perform a

end Linkage

/-! ### Ticks in the linkage -/

/-- No tick comes while the process that runs stands between its store and its load. -/
def NoTickBeforeLoad : LinkEvent → Linkage → Prop
  | .other .tick, L =>
    ∀ p ∈ L.machine.kernel.ctl.point.user?, L.storeReturn.owed.lookup p = none
  | _, _ => True

instance : (e : LinkEvent) → (L : Linkage) → Decidable (NoTickBeforeLoad e L)
  | .trap _ _, _ => .isTrue trivial
  | .back, _ => .isTrue trivial
  | .store, _ => .isTrue trivial
  | .load, _ => .isTrue trivial
  | .other e, L =>
    match e with
    | .tick => Option.decidableForallMem L.machine.kernel.ctl.point.user?
    | .key _ _ => .isTrue trivial
    | .execute _ _ => .isTrue trivial
    | .bootExec _ => .isTrue trivial
    | .restartExec _ => .isTrue trivial
    | .enter => .isTrue trivial
    | .call _ => .isTrue trivial
    | .begin _ => .isTrue trivial
    | .finish => .isTrue trivial
    | .raise _ => .isTrue trivial
    | .report => .isTrue trivial
    | .halt => .isTrue trivial
    | .raisedHalt => .isTrue trivial

/-- Every caller has found the value that its handler returned. -/
def ResultsIntact (L : Linkage) : Prop := ∀ x ∈ L.found, x.returned = some x.eax

/-- The results found are intact, and so are those on their way: what a process has in `eax` after
the return of its handler, and what one has stored and not loaded, and only the process that runs
stands between its store and its load. -/
structure LinkageOk (L : Linkage) : Prop where
  found : ResultsIntact L
  returned : ∀ p r, L.returned p = some r → L.handled p = some r
  cell : L.storeReturn.Intact
  owed : ∀ x ∈ L.storeReturn.owed, L.machine.kernel.ctl.point = .user x.1 ∧
    L.handled x.1 = some x.2 ∧ L.returned x.1 = none

/-! ### One step -/

/-- The action is no instruction of the linkage. -/
def Action.OfHandler : Action → Prop
  | .none => True
  | .back _ _ => True
  | .pass _ _ => True
  | _ => False

/-- How a step to the machine `m` finds the results in the linkage: nothing is owed, or the process
that runs makes a step of the linkage, or it is interrupted and stays there or is taken out. -/
inductive Linkage.Keeps (L : Linkage) (m : Machine) : Action → Prop
  | idle {a : Action} (howed : L.storeReturn.owed = []) (ha : a.OfHandler) : Keeps L m a
  | refuse {p : ℤ} (howed : L.storeReturn.owed = []) (hr : L.returned p = none) :
      Keeps L m (.refuse p)
  | store {p : ℤ} {r : Int32} (hm : m = L.machine) (hp : m.kernel.ctl.point = .user p)
      (hr : L.returned p = some r) : Keeps L m (.store p r)
  | load {p : ℤ} {r : Int32} (hm : m = L.machine) (hr : L.storeReturn.owed.lookup p = some r) :
      Keeps L m (.load p)
  | same (hm : m.kernel.ctl = L.machine.kernel.ctl) : Keeps L m .none
  | faulted {p : ℤ} (hp : L.machine.kernel.ctl.point.proc = some p)
      (hm : m.kernel.ctl.point = .faulted p .pageFault) : Keeps L m .none

namespace Linkage

variable {img : Image} {L L' : Linkage} {m : Machine} {p : ℤ} {r : Int32}

/-- A program that goes on by itself has no result in the linkage. -/
lemma runner_point (h : L.runner? = some p) : L.machine.kernel.ctl.point = .user p ∧
    L.returned p = none ∧ L.storeReturn.owed.lookup p = none := by
  rw [runner?] at h
  split at h
  · rename_i q hq
    split at h
    · exact absurd h (by simp)
    · rename_i hin
      obtain rfl := Option.some.inj h
      rw [Inside, not_or, Option.not_isSome_iff_eq_none, Option.not_isSome_iff_eq_none] at hin
      exact ⟨hq, hin.1, hin.2⟩
  · exact absurd h (by simp)

lemma returnOfExecute_handled (m : Machine) :
    (m.kernel.ctl.point.user?.map fun p => (p, (0 : Int32))) = (returnOfExecute m).handled? := by
  rw [returnOfExecute]
  cases m.kernel.ctl.point <;> rfl

lemma returnOfExecute_ofHandler (m : Machine) : (returnOfExecute m).OfHandler := by
  rw [returnOfExecute]
  split
  · trivial
  · trivial

lemma of_map {o : Option Machine} {a a' : Action}
    (h : o.map (fun m => (m, a')) = some (m, a)) : a = a' := by
  obtain ⟨m', -, heq⟩ := Option.map_eq_some_iff.1 h
  exact (Prod.mk.inj heq).2.symm

lemma dispatchUser_handled {r : Option Int32} {a : Action}
    (h : L.dispatchUser img p r = some (m, a)) :
    r.map (fun r => (p, r)) = a.handled? ∧ a.OfHandler := by
  cases r with
  | some r =>
    obtain ⟨-, rfl⟩ := Prod.mk.inj (Option.some.inj h)
    exact ⟨rfl, trivial⟩
  | none =>
    obtain rfl := of_map h
    exact ⟨rfl, trivial⟩

/-- The handler whose result an action passes on has returned it in the same step; it returns with
interrupts disabled, or does not return. -/
lemma dispatch_handled {request : Request} {a : Action}
    (h : L.dispatch img p request = some (m, a)) (hp : L.machine.kernel.ctl.point = .user p) :
    request.handled? img p L = a.handled? ∧ a.OfHandler := by
  cases request with
  | halt =>
    obtain ⟨m', hm, heq⟩ := Option.map_eq_some_iff.1 h
    obtain ⟨rfl, rfl⟩ := Prod.mk.inj heq
    rw [Request.handled?, hm, executeReturn?, Option.bind_some, returnOfExecute_handled]
    exact ⟨rfl, returnOfExecute_ofHandler m'⟩
  | execute command buf =>
    obtain ⟨m', hm, heq⟩ := Option.map_eq_some_iff.1 h
    obtain ⟨k', hk, rfl⟩ := Option.map_eq_some_iff.1 hm
    have hex := executed img L.machine.kernel (.linkage p) command buf
    dsimp only [Request.handled?, Request.result?]
    simp only [WnajOS.step, hp, startStep] at hk
    generalize syscallExecute img L.machine.kernel (.linkage p) command buf = r at hk hex
    cases hex with
    | fails =>
      obtain rfl := Option.some.inj hk
      simp only [hp, Prod.mk.injEq] at heq
      obtain ⟨-, rfl⟩ := heq
      exact ⟨rfl, trivial⟩
    | starts =>
      obtain rfl := Option.some.inj hk
      obtain ⟨-, rfl⟩ := Prod.mk.inj heq
      exact ⟨rfl, trivial⟩
    | faults =>
      obtain rfl := Option.some.inj hk
      obtain ⟨-, rfl⟩ := Prod.mk.inj heq
      exact ⟨rfl, trivial⟩
  | descriptor c =>
    rw [dispatch] at h
    dsimp only [Request.handled?, Request.result?]
    split at h
    · rename_i hin
      obtain rfl := of_map h
      rw [if_pos hin]
      exact ⟨rfl, trivial⟩
    · rename_i hno
      obtain ⟨m', -, heq⟩ := Option.map_eq_some_iff.1 h
      rw [if_neg hno]
      cases hcall : L.machine.kernel.call img c with
      | done x =>
        rw [hcall] at heq
        obtain ⟨-, rfl⟩ := Prod.mk.inj heq
        exact ⟨rfl, trivial⟩
      | waits =>
        rw [hcall] at heq
        obtain ⟨-, rfl⟩ := Prod.mk.inj heq
        exact ⟨rfl, trivial⟩
      | fault k =>
        rw [hcall] at heq
        obtain ⟨-, rfl⟩ := Prod.mk.inj heq
        exact ⟨rfl, trivial⟩
  | getargs buf nbytes => exact dispatchUser_handled h
  | vidmap screenStart => exact dispatchUser_handled h
  | sethandler signum =>
    obtain ⟨-, rfl⟩ := Prod.mk.inj (Option.some.inj h)
    exact ⟨rfl, trivial⟩
  | sigreturn =>
    obtain ⟨-, rfl⟩ := Prod.mk.inj (Option.some.inj h)
    exact ⟨rfl, trivial⟩

/-- **The results in the linkage are those of the handlers.** -/
lemma action_handled {e : LinkEvent} {a : Action} (h : L.action img e = some (m, a)) :
    e.handled? img L = a.handled? := by
  cases e with
  | trap eax request =>
    rw [action] at h
    dsimp only [LinkEvent.handled?]
    cases hrun : L.runner? with
    | none =>
      rw [hrun] at h
      exact absurd h (by simp)
    | some p =>
      rw [hrun] at h
      rw [Option.bind_some]
      dsimp only at h
      split at h
      · rename_i hbad
        obtain ⟨-, rfl⟩ := Prod.mk.inj (Option.some.inj h)
        rw [if_pos hbad]
        rfl
      · rename_i hgood
        rw [if_neg hgood]
        split at h
        · exact (dispatch_handled h (runner_point hrun).1).1
        · exact absurd h (by simp)
  | back =>
    rw [action, handlerBack] at h
    dsimp only [LinkEvent.handled?]
    cases hpt : L.machine.kernel.ctl.point with
    | sys p c =>
      rw [hpt] at h
      obtain ⟨m', -, heq⟩ := Option.map_eq_some_iff.1 h
      dsimp only
      cases hcall : L.machine.kernel.call img c with
      | done x =>
        rw [hcall] at heq
        obtain ⟨-, rfl⟩ := Prod.mk.inj heq
        dsimp only
        split
        · rfl
        · rfl
      | waits =>
        rw [hcall] at heq
        obtain ⟨-, rfl⟩ := Prod.mk.inj heq
        rfl
      | fault k =>
        rw [hcall] at heq
        obtain ⟨-, rfl⟩ := Prod.mk.inj heq
        rfl
    | _ =>
      rw [hpt] at h
      exact absurd h (by simp)
  | store =>
    rw [action] at h
    split at h
    · obtain ⟨r, -, heq⟩ := Option.map_eq_some_iff.1 h
      obtain ⟨-, rfl⟩ := Prod.mk.inj heq
      rfl
    · exact absurd h (by simp)
  | load =>
    rw [action] at h
    split at h
    · split at h
      · obtain ⟨-, rfl⟩ := Prod.mk.inj (Option.some.inj h)
        rfl
      · exact absurd h (by simp)
    · exact absurd h (by simp)
  | other e =>
    rw [action] at h
    cases e with
    | raisedHalt =>
      obtain ⟨m', hm, heq⟩ := Option.map_eq_some_iff.1 h
      obtain ⟨rfl, rfl⟩ := Prod.mk.inj heq
      dsimp only [LinkEvent.handled?]
      rw [hm, executeReturn?, Option.bind_some, returnOfExecute_handled]
    | raise x =>
      rw [otherStep] at h
      split at h
      · split at h
        · exact absurd h (by simp)
        · exact of_map h ▸ rfl
      · exact of_map h ▸ rfl
    | execute command buf => exact absurd h (by simp [otherStep])
    | call c => exact absurd h (by simp [otherStep])
    | begin c => exact absurd h (by simp [otherStep])
    | finish => exact absurd h (by simp [otherStep])
    | halt => exact absurd h (by simp [otherStep])
    | _ => exact of_map h ▸ rfl

/-- Nothing is owed where no program runs. -/
lemma owed_nil_of_point (h : LinkageOk L) (hp : L.machine.kernel.ctl.point.user? = none) :
    L.storeReturn.owed = [] := by
  refine List.eq_nil_iff_forall_not_mem.2 fun x hx => ?_
  rw [(h.owed x hx).1] at hp
  exact absurd hp (by simp [Point.user?])

/-- Nothing is owed where a program can go on by itself. -/
lemma owed_nil_of_lookup (h : LinkageOk L) (hp : L.machine.kernel.ctl.point = .user p)
    (hnone : L.storeReturn.owed.lookup p = none) : L.storeReturn.owed = [] := by
  refine List.eq_nil_iff_forall_not_mem.2 fun x hx => ?_
  obtain rfl : p = x.1 := Point.user.inj (hp.symm.trans (h.owed x hx).1)
  exact absurd (beq_self_eq_true x.1) (by simpa using List.lookup_eq_none_iff.1 hnone x hx)

/-- A key that is handled in the linkage leaves the process there, or takes it out with a page
fault. -/
lemma key_keeps {control : Bool} {chr : UInt8} {m : Machine}
    (hs : L.machine.step img (.key control chr) = some m) : Keeps L m .none := by
  obtain ⟨k', hk, rfl⟩ := Option.map_eq_some_iff.1 hs
  cases step_cases hk with
  | key hpt hkey =>
    obtain ⟨d, ⟨-, rfl⟩ | ⟨-, p, hp, rfl⟩⟩ := keyStep_eq_some hkey
    · exact .same rfl
    · exact .faulted hp rfl

/-- A step of the kernel that comes where no program runs. -/
lemma otherStep_keeps {e : Event} {a : Action} (h : LinkageOk L)
    (hok : NoTickBeforeLoad (.other e) L) (hact : L.otherStep img e = some (m, a)) :
    Keeps L m a := by
  have hnone : ∀ {e : Event}, L.storeReturn.owed = [] →
      (L.machine.step img e).map (fun m => (m, Action.none)) = some (m, a) → Keeps L m a := by
    intro e howed heq
    obtain ⟨m', -, heq⟩ := Option.map_eq_some_iff.1 heq
    obtain ⟨-, rfl⟩ := Prod.mk.inj heq
    exact .idle howed trivial
  -- where the event can come
  have hpoint : ∀ {e : Event}, (∀ k', WnajOS.step img e L.machine.kernel = some k' →
      L.machine.kernel.ctl.point.user? = none) →
      (L.machine.step img e).map (fun m => (m, Action.none)) = some (m, a) → Keeps L m a := by
    intro e hp heq
    refine hnone ?_ heq
    obtain ⟨m', hm, -⟩ := Option.map_eq_some_iff.1 heq
    obtain ⟨k', hk, -⟩ := Option.map_eq_some_iff.1 hm
    exact owed_nil_of_point h (hp k' hk)
  cases e with
  | tick =>
    refine hnone ?_ hact
    cases hu : L.machine.kernel.ctl.point.user? with
    | none => exact owed_nil_of_point h hu
    | some p => exact owed_nil_of_lookup h (Point.eq_user hu) (hok p hu)
  | key control chr =>
    obtain ⟨m', hm, heq⟩ := Option.map_eq_some_iff.1 hact
    obtain ⟨rfl, rfl⟩ := Prod.mk.inj heq
    exact key_keeps hm
  | bootExec buf =>
    refine hpoint (fun k' hk => ?_) hact
    cases step_cases hk with
    | bootExec hpt => rw [hpt]; rfl
  | restartExec buf =>
    refine hpoint (fun k' hk => ?_) hact
    cases step_cases hk with
    | restartExec hpt => rw [hpt]; rfl
  | enter =>
    refine hpoint (fun k' hk => ?_) hact
    cases step_cases hk with
    | enter hpt => rw [hpt]; rfl
  | report =>
    refine hpoint (fun k' hk => ?_) hact
    cases step_cases hk with
    | report hpt => exact Point.user_of_reports hpt
  | raise x =>
    rw [otherStep] at hact
    split at hact
    · rename_i p hp
      split at hact
      · exact absurd hact (by simp)
      · rename_i hin
        rw [Inside, not_or, Option.not_isSome_iff_eq_none, Option.not_isSome_iff_eq_none] at hin
        exact hnone (owed_nil_of_lookup h hp hin.2) hact
    · rename_i hp
      refine hnone (owed_nil_of_point h ?_) hact
      cases hu : L.machine.kernel.ctl.point.user? with
      | none => rfl
      | some p => exact absurd (Point.eq_user hu) (hp p)
  | raisedHalt =>
    obtain ⟨m', hm, heq⟩ := Option.map_eq_some_iff.1 hact
    obtain ⟨-, rfl⟩ := Prod.mk.inj heq
    obtain ⟨k', hk, -⟩ := Option.map_eq_some_iff.1 hm
    refine .idle (owed_nil_of_point h ?_) (returnOfExecute_ofHandler m')
    cases step_cases hk with
    | raisedHalt hpt => rw [hpt]; rfl
  | _ => exact absurd hact (by simp [otherStep])

/-- **Where a step finds the results**, if no tick comes before a load. -/
lemma action_keeps {e : LinkEvent} {a : Action} (h : LinkageOk L) (hok : NoTickBeforeLoad e L)
    (hact : L.action img e = some (m, a)) : Keeps L m a := by
  cases e with
  | trap eax request =>
    rw [action] at hact
    split at hact
    · rename_i p hrun
      obtain ⟨hp, hr, hnone⟩ := runner_point hrun
      have howed := owed_nil_of_lookup h hp hnone
      split at hact
      · obtain ⟨rfl, rfl⟩ := Prod.mk.inj (Option.some.inj hact)
        exact .refuse howed hr
      · split at hact
        · exact .idle howed (dispatch_handled hact hp).2
        · exact absurd hact (by simp)
    · exact absurd hact (by simp)
  | back =>
    rw [action, handlerBack] at hact
    split at hact
    · rename_i p c hp
      have howed := owed_nil_of_point h (by rw [hp]; rfl)
      obtain ⟨m', -, heq⟩ := Option.map_eq_some_iff.1 hact
      split at heq
      · obtain ⟨-, rfl⟩ := Prod.mk.inj heq
        refine .idle howed ?_
        split
        · trivial
        · trivial
      · obtain ⟨-, rfl⟩ := Prod.mk.inj heq
        exact .idle howed trivial
    · exact absurd hact (by simp)
  | store =>
    rw [action] at hact
    split at hact
    · rename_i p hp
      obtain ⟨r, hr, heq⟩ := Option.map_eq_some_iff.1 hact
      obtain ⟨rfl, rfl⟩ := Prod.mk.inj heq
      exact .store rfl hp hr
    · exact absurd hact (by simp)
  | load =>
    rw [action] at hact
    split at hact
    · rename_i p hp
      split at hact
      · rename_i hsome
        obtain ⟨r, hr⟩ := Option.isSome_iff_exists.1 hsome
        obtain ⟨rfl, rfl⟩ := Prod.mk.inj (Option.some.inj hact)
        exact .load rfl hr
      · exact absurd hact (by simp)
    · exact absurd hact (by simp)
  | other e => exact otherStep_keeps h hok hact

/-- The results of a state whose machine has made a step. -/
lemma settle_cases (m : Machine) (L : Linkage) : L.settle m = { L with machine := m } ∧
      m.kernel.ctl.point.raising? = none ∨
    ∃ q, m.kernel.ctl.point.raising? = some q ∧
      L.settle m = ({ L with machine := m }).abandon q := by
  rw [settle]
  cases hq : m.kernel.ctl.point.raising? with
  | none => exact Or.inl ⟨rfl, rfl⟩
  | some q => exact Or.inr ⟨q, rfl, rfl⟩

/-- A process can only be taken out of the linkage. -/
lemma settle_le (m : Machine) (L : Linkage) :
    (∀ p, L.returned p = none → (L.settle m).returned p = none) ∧
      (L.storeReturn.owed = [] → (L.settle m).storeReturn.owed = []) := by
  rcases settle_cases m L with ⟨heq, -⟩ | ⟨q, -, heq⟩
  · rw [heq]
    exact ⟨fun p hp => hp, id⟩
  · rw [heq]
    refine ⟨fun p hp => ?_, fun hnil => ?_⟩
    · by_cases hpq : p = q
      · subst hpq
        exact Function.update_self ..
      · exact (Function.update_of_ne hpq ..).trans hp
    · simp [abandon, SharedCell.drop, hnil]

lemma settle_ok {a : Action} (h : LinkageOk L) (hk : Keeps L m a) : LinkageOk (L.settle m) := by
  -- what is owed to the processes that stay in the linkage
  have howed : ∀ x ∈ L.storeReturn.owed, m.kernel.ctl.point = .user x.1 ∨
      m.kernel.ctl.point.raising? = some x.1 := by
    intro x hx
    obtain ⟨hp, -⟩ := h.owed x hx
    cases hk with
    | idle hnil => exact absurd hx (by rw [hnil]; exact List.not_mem_nil)
    | refuse hnil => exact absurd hx (by rw [hnil]; exact List.not_mem_nil)
    | store hm => exact Or.inl (by rw [hm]; exact hp)
    | load hm => exact Or.inl (by rw [hm]; exact hp)
    | same hm => exact Or.inl (by rw [hm]; exact hp)
    | faulted hproc hm =>
      rw [hp] at hproc
      obtain rfl := Option.some.inj hproc
      exact Or.inr (by rw [hm]; rfl)
  rcases settle_cases m L with ⟨heq, hnone⟩ | ⟨q, hq, heq⟩
  · rw [heq]
    refine ⟨h.found, h.returned, h.cell, fun x hx => ⟨?_, (h.owed x hx).2⟩⟩
    refine (howed x hx).resolve_right fun hr => ?_
    exact absurd (hr.symm.trans hnone) (by simp)
  · rw [heq]
    refine ⟨h.found, fun p r hr => ?_, h.cell.drop q, fun x hx => ?_⟩
    · by_cases hpq : p = q
      · subst hpq
        exact absurd hr (by simp [abandon])
      · exact h.returned p r (by simpa [abandon, Function.update_of_ne hpq] using hr)
    · obtain ⟨hx, hne⟩ := List.mem_filter.1 hx
      have hxq : x.1 ≠ q := by simpa using hne
      rcases howed x hx with hp | hr
      · exact absurd (hp ▸ hq) (by simp [Point.raising?])
      · exact absurd (Option.some.inj (hr.symm.trans hq)) hxq

/-- A process goes on with what its handler has returned. -/
lemma find_ok {eax : Int32} (h : ResultsIntact L) (hp : L.handled p = some eax) :
    ResultsIntact (L.find p eax) := by
  intro x hx
  rcases List.mem_cons.1 hx with rfl | hx
  · exact hp
  · exact h x hx

section Perform

variable (h : LinkageOk L)
include h

/-- A handler returns with interrupts enabled. -/
lemma back_ok (howed : L.storeReturn.owed = []) (p : ℤ) (r : Int32) :
    LinkageOk ((L.handle (some (p, r))).perform (.back p r)) := by
  refine ⟨h.found, fun q r' hr => ?_, h.cell, fun x hx => ?_⟩
  · by_cases hq : q = p
    · subst hq
      simpa [perform, handle] using hr
    · simp only [perform, handle, Function.update_of_ne hq] at hr ⊢
      exact h.returned q r' hr
  · rw [show ((L.handle (some (p, r))).perform (.back p r)).storeReturn.owed = [] from howed] at hx
    exact absurd hx List.not_mem_nil

/-- A handler returns with interrupts disabled. -/
lemma pass_ok (howed : L.storeReturn.owed = []) (p : ℤ) (r : Int32) :
    LinkageOk ((L.handle (some (p, r))).perform (.pass p r)) := by
  refine ⟨find_ok h.found (by simp [storeResult, handle]), fun q r' hr => ?_,
    (SharedCell.intact_put_of_owed_nil howed p r).drop p, fun x hx => ?_⟩
  · by_cases hq : q = p
    · subst hq
      exact absurd hr (by simp [perform, loadResult, find, storeResult])
    · simp only [perform, loadResult, find, storeResult, handle, Function.update_of_ne hq] at hr ⊢
      exact h.returned q r' hr
  · obtain ⟨hx, hne⟩ := List.mem_filter.1 hx
    rcases List.mem_cons.1 hx with rfl | hx
    · exact absurd hne (by simp)
    · rw [show (L.handle (some (p, r))).storeReturn.owed = [] from howed] at hx
      exact absurd hx List.not_mem_nil

/-- `invalid_cmd`. -/
lemma refuse_ok (howed : L.storeReturn.owed = []) (hr : L.returned p = none) :
    LinkageOk ((L.handle (some (p, -1))).perform (.refuse p)) := by
  refine ⟨find_ok h.found (by simp [handle]), fun q r' hq => ?_, h.cell, fun x hx => ?_⟩
  · have hne : q ≠ p := by
      rintro rfl
      exact absurd (hr.symm.trans hq) (by simp)
    simp only [perform, find, handle, Function.update_of_ne hne] at hq ⊢
    exact h.returned q r' hq
  · rw [show ((L.handle (some (p, -1))).perform (.refuse p)).storeReturn.owed = [] from howed] at hx
    exact absurd hx List.not_mem_nil

/-- The store, by the process that runs. -/
lemma storeResult_ok (hp : L.machine.kernel.ctl.point = .user p) (hr : L.returned p = some r) :
    LinkageOk (L.storeResult p r) := by
  -- it has not stored its result yet, and no other process stands before its load
  have hnone : L.storeReturn.owed.lookup p = none := by
    cases hl : L.storeReturn.owed.lookup p with
    | none => rfl
    | some r' =>
      obtain ⟨-, -, hret⟩ := h.owed _ (SharedCell.mem_of_lookup hl)
      exact absurd (hr.symm.trans hret) (by simp)
  have howed := owed_nil_of_lookup h hp hnone
  refine ⟨h.found, fun q r' hq => ?_, SharedCell.intact_put_of_owed_nil howed p r, fun x hx => ?_⟩
  · by_cases hqp : q = p
    · subst hqp
      exact absurd hq (by simp [storeResult])
    · simp only [storeResult, Function.update_of_ne hqp] at hq
      exact h.returned q r' hq
  · rcases List.mem_cons.1 hx with rfl | hx
    · exact ⟨hp, h.returned p r hr, Function.update_self ..⟩
    · rw [howed] at hx
      exact absurd hx List.not_mem_nil

/-- The load. -/
lemma loadResult_ok (hr : L.storeReturn.owed.lookup p = some r) : LinkageOk (L.loadResult p) := by
  obtain ⟨-, hhandled, -⟩ := h.owed _ (SharedCell.mem_of_lookup hr)
  refine ⟨find_ok h.found ?_, h.returned, h.cell.drop p, fun x hx => ?_⟩
  · rw [h.cell.value_of_lookup hr]
    exact hhandled
  · exact h.owed x (List.mem_of_mem_filter hx)

end Perform

/-- **A step keeps the results intact**, if no tick comes before a load. -/
lemma step_ok {e : LinkEvent} (h : LinkageOk L) (hok : NoTickBeforeLoad e L)
    (hs : L.step img e = some L') : LinkageOk L' := by
  obtain ⟨⟨m, a⟩, hact, rfl⟩ := Option.map_eq_some_iff.1 hs
  have hkeeps := action_keeps h hok hact
  have hset := settle_ok h hkeeps
  dsimp only
  rw [action_handled hact]
  obtain ⟨hreturned, howed⟩ := settle_le m L
  cases hkeeps with
  | idle hnil ha =>
    cases a with
    | none => exact hset
    | back p r => exact back_ok hset (howed hnil) p r
    | pass p r => exact pass_ok hset (howed hnil) p r
    | refuse p => exact ha.elim
    | store p r => exact ha.elim
    | load p => exact ha.elim
  | @refuse p hnil hr => exact refuse_ok hset (howed hnil) (hreturned p hr)
  | @store p r hm hp hr =>
    subst hm
    have hsettle : L.settle L.machine = L := by
      rw [settle, hp]
      rfl
    rw [hsettle]
    exact storeResult_ok h hp hr
  | @load p r hm hr =>
    subst hm
    have hsettle : L.settle L.machine = L := by
      rw [settle, (h.owed _ (SharedCell.mem_of_lookup hr)).1]
      rfl
    rw [hsettle]
    exact loadResult_ok h hr
  | same hm => exact hset
  | faulted hp hm => exact hset

/-! ### The machine inside -/

/-- The linkage adds no steps to the machine: every step is one of the machine, or none. -/
def StepsMachine (img : Image) (m m' : Machine) : Prop :=
  m' = m ∨ ∃ e, m.step img e = some m'

lemma StepsMachine.of_map {m₀ : Machine} {e : Event} {f : Machine → Machine × Action}
    {x : Machine × Action} (hf : ∀ m, (f m).1 = m) (h : (m₀.step img e).map f = some x) :
    StepsMachine img m₀ x.1 := by
  obtain ⟨m, hm, rfl⟩ := Option.map_eq_some_iff.1 h
  rw [hf]
  exact Or.inr ⟨e, hm⟩

lemma dispatch_machine {request : Request} {x : Machine × Action}
    (h : L.dispatch img p request = some x) : StepsMachine img L.machine x.1 := by
  have huser : ∀ r : Option Int32, L.dispatchUser img p r = some x →
      StepsMachine img L.machine x.1 := by
    intro r hr
    cases r with
    | some r =>
      obtain rfl := Option.some.inj hr
      exact Or.inl rfl
    | none => exact .of_map (fun m => rfl) hr
  cases request with
  | halt => exact .of_map (fun m => rfl) h
  | execute command buf => exact .of_map (fun m => by split <;> rfl) h
  | descriptor c =>
    rw [dispatch] at h
    split at h
    · exact .of_map (fun m => rfl) h
    · exact .of_map (fun m => by split <;> rfl) h
  | getargs buf nbytes => exact huser _ h
  | vidmap screenStart => exact huser _ h
  | sethandler signum =>
    obtain rfl := Option.some.inj h
    exact Or.inl rfl
  | sigreturn =>
    obtain rfl := Option.some.inj h
    exact Or.inl rfl

lemma handlerBack_machine {x : Machine × Action} (h : L.handlerBack img = some x) :
    StepsMachine img L.machine x.1 := by
  rw [handlerBack] at h
  split at h
  · exact .of_map (fun m => by split <;> rfl) h
  · exact absurd h (by simp)

lemma otherStep_machine {e : Event} {x : Machine × Action} (h : L.otherStep img e = some x) :
    StepsMachine img L.machine x.1 := by
  cases e with
  | raise =>
    rw [otherStep] at h
    split at h
    · split at h
      · exact absurd h (by simp)
      · exact .of_map (fun m => rfl) h
    · exact .of_map (fun m => rfl) h
  | raisedHalt => exact .of_map (fun m => rfl) h
  | tick => exact .of_map (fun m => rfl) h
  | key control chr => exact .of_map (fun m => rfl) h
  | bootExec buf => exact .of_map (fun m => rfl) h
  | restartExec buf => exact .of_map (fun m => rfl) h
  | enter => exact .of_map (fun m => rfl) h
  | report => exact .of_map (fun m => rfl) h
  | _ => exact absurd h (by simp [otherStep])

/-- An instruction of the linkage leaves the machine alone, the rest are its own steps. -/
lemma action_machine {e : LinkEvent} {x : Machine × Action} (h : L.action img e = some x) :
    StepsMachine img L.machine x.1 := by
  cases e with
  | trap eax request =>
    rw [action] at h
    split at h
    · split at h
      · obtain rfl := Option.some.inj h
        exact Or.inl rfl
      · split at h
        · exact dispatch_machine h
        · exact absurd h (by simp)
    · exact absurd h (by simp)
  | back => exact handlerBack_machine h
  | store =>
    rw [action] at h
    split at h
    · obtain ⟨r, -, rfl⟩ := Option.map_eq_some_iff.1 h
      exact Or.inl rfl
    · exact absurd h (by simp)
  | load =>
    rw [action] at h
    split at h
    · split at h
      · obtain rfl := Option.some.inj h
        exact Or.inl rfl
      · exact absurd h (by simp)
    · exact absurd h (by simp)
  | other e => exact otherStep_machine h

lemma settle_machine (m : Machine) (L : Linkage) : (L.settle m).machine = m := by
  rw [settle]
  split <;> rfl

lemma perform_machine (L : Linkage) (a : Action) : (L.perform a).machine = L.machine := by
  cases a with
  | _ => rfl

lemma handle_machine (L : Linkage) (r : Option (ℤ × Int32)) :
    (L.handle r).machine = L.machine := by
  cases r with
  | _ => rfl

/-- **The linkage refines the machine.**  In every run, what the machine inside has done is a
run of its own, with the interrupts between the instructions of the linkage as its ticks. -/
theorem linkage_refines {ok : LinkEvent → Linkage → Prop} {m₀ : Machine}
    (h : Runs.Reach (step img) ok (boot m₀) L) :
    Runs.Reach (Machine.step img) (fun _ _ => True) m₀ L.machine := by
  have hsim : ∃ m, Runs.Reach (Machine.step img) (fun _ _ => True) m₀ m ∧ L.machine = m := by
    refine h.simulate (R := fun L m => L.machine = m) rfl ?_
    rintro e L₁ L₂ m rfl - hs
    obtain ⟨⟨m, a⟩, hact, rfl⟩ := Option.map_eq_some_iff.1 hs
    rw [perform_machine, handle_machine, settle_machine]
    rcases action_machine hact with hm | ⟨e', hm⟩
    · exact Or.inl hm
    · exact Or.inr ⟨e', m, trivial, hm, rfl⟩
  obtain ⟨m, hm, rfl⟩ := hsim
  exact hm

end Linkage

/-! ### Results over whole runs -/

/-- **Callers find their own results.**  In every run from boot in which no tick comes between the
store of a result and its load, every caller has found in `eax` what its own handler returned, or -1
for a number that is not in the table. -/
theorem results_intact (img : Image) (m₀ : Machine) (L : Linkage)
    (h : Runs.Reach (Linkage.step img) NoTickBeforeLoad (Linkage.boot m₀) L) :
    ResultsIntact L := by
  have hok : LinkageOk L := by
    refine h.invariant (P := LinkageOk) ?_ fun e L₁ L₂ hL hok hs => Linkage.step_ok hL hok hs
    exact ⟨fun x hx => absurd hx List.not_mem_nil, fun p r hr => absurd hr (by simp [Linkage.boot]),
      SharedCell.intact_of_owed_nil rfl, fun x hx => absurd hx List.not_mem_nil⟩
  exact hok.found

/-- The three shells boot. -/
def linkageShells : List LinkEvent := bootShells.map .other

/-- A write of one byte to the terminal. -/
def sampleWrite : LinkEvent := .trap 4 (.descriptor (.write 1 (some fun _ => 65) 1))

/-- The write of the last shell has returned when its time is over; the first shell closes a
descriptor that is not open and uses a number that is not in the table; then the last shell
goes on. -/
theorem results_intact_preempted :
    ∃ L, Runs.run (Linkage.step sampleImage) (linkageShells ++ [sampleWrite, .back, .other .tick,
        .trap 6 (.descriptor (.close 5)), .trap 0x100 .sigreturn, .other .tick, .other .tick,
        .store, .load]) (Linkage.boot sampleMachine) = some L ∧
      L.found.length = 3 ∧ ResultsIntact L := by
  let es := linkageShells ++ [sampleWrite, .back, .other .tick,
    .trap 6 (.descriptor (.close 5)), .trap 0x100 .sigreturn, .other .tick, .other .tick,
    .store, .load]
  have hrun : (Runs.run (Runs.guarded (Linkage.step sampleImage) NoTickBeforeLoad) es
      (Linkage.boot sampleMachine)).any (fun L => L.found.length = 3) = true := by decide +kernel
  obtain ⟨L, hL, hlen⟩ := (Option.any_eq_true _ _).1 hrun
  exact ⟨L, Runs.run_of_guarded hL, of_decide_eq_true hlen,
    results_intact sampleImage sampleMachine L (Runs.reach_of_guarded hL)⟩

/-- The time of the last shell is over between the store and the load of its write, which has
returned 1; the first shell closes a descriptor that is not open, and the last shell finds the
-1 of that call. -/
theorem result_of_another_process :
    ∃ L, Runs.Reach (Linkage.step sampleImage) (fun _ _ => True) (Linkage.boot sampleMachine) L ∧
      L.found.head? = some ⟨2, some 1, -1⟩ ∧ ¬ResultsIntact L := by
  let es := linkageShells ++ [sampleWrite, .back, .store, .other .tick,
    .trap 6 (.descriptor (.close 5)), .other .tick, .other .tick, .load]
  have hrun : (Runs.run (Linkage.step sampleImage) es (Linkage.boot sampleMachine)).any
      (fun L => L.found.head? = some ⟨2, some 1, -1⟩) = true := by decide +kernel
  obtain ⟨L, hL, hhead⟩ := (Option.any_eq_true _ _).1 hrun
  have hfound : L.found.head? = some ⟨2, some 1, -1⟩ := of_decide_eq_true hhead
  refine ⟨L, Runs.reach_of_run (fun _ _ => trivial) hL, hfound, fun hok => ?_⟩
  have heq := hok ⟨2, some 1, -1⟩ (List.mem_of_head? hfound)
  exact absurd heq (by decide)

end WnajOS
