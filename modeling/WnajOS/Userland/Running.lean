import WnajOS.Arguments
import WnajOS.ClockSteps
import WnajOS.CursorBound
import WnajOS.RtcTiming
import WnajOS.Userland.Cat

/-!
# A program on the machine

A process runs a program on the machine: between its calls, and while a call of its waits, come
ticks, keys and everything that the other processes do.  In every orderly run the machine keeps the
state that the process has for itself, so that the program goes through the states of its run alone,
and every call that it makes returns.
-/

namespace WnajOS

/-! ### What a step leaves to the others -/

/-- The kernel as a board.  The cursors do not depend on the modifier keys. -/
abbrev Kernel.board (k : Kernel) : Board := ⟨k, KbdMods.none⟩

/-- Control-C comes at a terminal that has a process. -/
def Heard (e : Event) (k : Kernel) : Prop :=
  match e with
  | .key control chr => Display.IsSignal control chr → (k.terms k.visibleTerm).pid ≠ -1
  | _ => True

instance (e : Event) (k : Kernel) : Decidable (Heard e k) :=
  match e with
  | .key control chr =>
    inferInstanceAs (Decidable (Display.IsSignal control chr → (k.terms k.visibleTerm).pid ≠ -1))
  | .tick | .execute _ _ | .bootExec _ | .restartExec _ | .enter | .call _ | .begin _ | .finish
  | .raise _ | .report | .halt | .raisedHalt => .isTrue trivial

/-- The conditions on a step under which the processes stay in order, the cursors on their screens,
and no key raises an exception. -/
structure Regular (img : Image) (e : Event) (k : Kernel) : Prop where
  orderly : Orderly img e k
  backsStay : BacksStay (.other e) k.board
  heard : Heard e k

instance (img : Image) (e : Event) (k : Kernel) : Decidable (Regular img e k) :=
  decidable_of_iff (Orderly img e k ∧ BacksStay (.other e) k.board ∧ Heard e k)
    ⟨fun ⟨h₁, h₂, h₃⟩ => ⟨h₁, h₂, h₃⟩, fun h => ⟨h.1, h.2, h.3⟩⟩

section Frame

variable {img : Image} {e : Event} {k k' : Kernel} {m m' : Machine}

/-- The cursors stay on their screens. -/
lemma sound_step (h : k.board.Sound) (hok : BacksStay (.other e) k.board)
    (hs : step img e k = some k') : k'.board.Sound := by
  obtain ⟨hnext, -⟩ := h.kernelStep hok hs KbdMods.none
  exact hnext

/-- A key changes the display only. -/
lemma key_step {control : Bool} {chr : UInt8} (h : k.board.Sound)
    (hok : Regular img (.key control chr) k) (hs : step img (.key control chr) k = some k') :
    ∃ d, k' = { k with toDisplay := d } ∧ k.toDisplay.Kept d := by
  have hkept := Display.keyboardHandler_keeps control chr k.toDisplay
  cases step_cases hs with
  | key _ hs =>
    obtain ⟨d, ⟨hd, rfl⟩ | ⟨hd, -⟩⟩ := keyStep_eq_some hs
    · rw [hd] at hkept
      exact ⟨d, rfl, hkept⟩
    · -- the echoes stay on the screen, and a signal finds a process
      exfalso
      cases hlk : lineKey control chr with
      | none =>
        obtain ⟨d', hd' | ⟨hd', hsignal, hpid⟩, -⟩ :=
          Display.keyboardHandler_of_none hlk k.toDisplay
        · exact absurd (hd.symm.trans hd') (by simp)
        · exact hok.heard hsignal hpid
      | some key =>
        obtain ⟨d', heq, -⟩ := h.ready.keyStroke hlk hok.backsStay
        exact absurd (hd.symm.trans heq) (by simp)

/-- The descriptors and the argument of a live process are changed by its own calls only. -/
lemma Inv.pcb_elsewhere (h : Inv m.kernel m.live) (ho : Orderly img e m.kernel)
    (hs : m.step img e = some m') {t : ℕ} {p : ℤ} (hp : p ∈ m.live t)
    (hproc : e.isTick = false → m.kernel.ctl.point.proc ≠ some p) :
    (m'.kernel.pcbOf p).fdArr = (m.kernel.pcbOf p).fdArr ∧
      (m'.kernel.pcbOf p).args = (m.kernel.pcbOf p).args := by
  have heff := step_effect hs
  obtain ⟨k, live⟩ := m
  obtain ⟨k', live'⟩ := m'
  dsimp only at h ho heff hp hproc ⊢
  have hkept : k'.pcbs = k.pcbs → (k'.pcbOf p).fdArr = (k.pcbOf p).fdArr ∧
      (k'.pcbOf p).args = (k.pcbOf p).args := by
    intro hpcbs
    rw [Kernel.pcbOf, hpcbs, Kernel.pcbOf]
    exact ⟨rfl, rfl⟩
  have hother : k'.pcbOf p = k.pcbOf p → (k'.pcbOf p).fdArr = (k.pcbOf p).fdArr ∧
      (k'.pcbOf p).args = (k.pcbOf p).args := by
    intro heq
    rw [heq]
    exact ⟨rfl, rfl⟩
  cases heff with
  | same _ hpcbs _ => exact hkept hpcbs
  | @called q c fds he hq _ _ hpcbs _ =>
    have htick : e.isTick = false := by
      cases e with
      | tick => exact absurd he (by simp [Event.call?])
      | _ => rfl
    have hqp : p ≠ q := by
      rintro rfl
      exact hproc htick (Point.proc_of_runs hq)
    refine hother ?_
    rw [Kernel.pcbOf, hpcbs, Kernel.setFds, (h.cpu q hq).thisPcb]
    exact (Kernel.setPcb_pcbOf k q p _).trans (if_neg hqp)
  | tick _ ht =>
    rw [ht.pcbOf]
    split
    · rename_i hcur
      rw [hcur.1]
      exact ⟨rfl, rfl⟩
    · exact ⟨rfl, rfl⟩
  | @created caller command buf d i _ _ hi _ hc =>
    refine hother ?_
    rw [hc.pcbOf, if_neg]
    rintro rfl
    exact h.not_mem_of_free (freeSlot_spec hi).2.1 t hp
  | faulted _ _ _ _ hk' =>
    obtain ⟨c, rfl, -⟩ := hk'
    exact hkept rfl
  | failed hstart hc hd =>
    obtain ⟨⟨d', hd', -⟩, hslot⟩ := ho.shellStarts (hstart.isOwn hc)
    rcases hd with hnone | hnone
    · rw [hstart.program, hnone] at hd'
      exact absurd hd' (by simp)
    · rw [hnone] at hslot
      exact absurd hslot (by simp)
  | @halted q he hq hk' =>
    subst hk'
    obtain ⟨-, -, hcur⟩ := h.proc hq
    have htick : e.isTick = false := by rcases he with rfl | rfl <;> rfl
    have hpq : p ≠ k.cur := by
      rintro rfl
      exact hproc htick (hcur ▸ hq)
    rcases syscallHalt_cases k with ⟨-, heq⟩ | ⟨-, hfin⟩
    · exact hkept (by rw [heq])
    · obtain ⟨fds, hpcb⟩ := hfin.pcbOf
      exact hother (by rw [hpcb, if_neg hpq])

/-- A step of another terminal leaves the rate of the terminal alone. -/
lemma freq_elsewhere (hs : step img e k = some k') {t : ℕ} (ht : t ≠ k.scheduledTerm) :
    k'.rtc.freq t = k.rtc.freq t := by
  rw [(step_rtc hs).freq]
  split
  · exact Function.update_of_ne ht ..
  · rfl

end Frame

/-- The event comes from outside of the process: it is an interrupt, or the `iret` that enters the
program. -/
def Event.Outside : Event → Prop
  | .tick => True
  | .key _ _ => True
  | .enter => True
  | _ => False

instance : DecidablePred Event.Outside
  | .tick => .isTrue trivial
  | .key _ _ => .isTrue trivial
  | .enter => .isTrue trivial
  | .execute _ _ => .isFalse id
  | .bootExec _ => .isFalse id
  | .restartExec _ => .isFalse id
  | .call _ => .isFalse id
  | .begin _ => .isFalse id
  | .finish => .isFalse id
  | .raise _ => .isFalse id
  | .report => .isFalse id
  | .halt => .isFalse id
  | .raisedHalt => .isFalse id

/-- An event that is neither a tick, nor a call of `syscall_execute` or `syscall_halt`, is orderly. -/
lemma orderly_of_call {img : Image} {e : Event} {k : Kernel} (hcommand : e.command? = none)
    (hends : e.ends = false) (hown : e.isOwn = false) (htick : e.isTick = false) :
    Orderly img e k := by
  constructor
  · intro hsome
    rw [Event.program?, hcommand] at hsome
    exact absurd hsome (by simp)
  · intro h
    rw [hends] at h
    exact absurd h (by simp)
  · intro h
    rw [hown] at h
    exact absurd h (by simp)
  · intro h
    rw [htick] at h
    exact absurd h (by simp)

/-- A call that writes no backspace. -/
lemma backsStay_of_call {e : Event} {k : Kernel} (hkey : e.isKey = false)
    (hprinted : e.printed? k = none) (h : ∀ cs, e.written? k = some cs → 8 ∉ cs) :
    BacksStay (.other e) k.board := by
  have hstays : ((k.terms k.scheduledTerm).cursor).Stays ((e.written? k).getD []) := by
    cases hw : e.written? k with
    | none => trivial
    | some cs => exact Cursor.stays_of_notMem (h cs hw)
  cases e with
  | key => exact absurd hkey (by simp [Event.isKey])
  | report =>
    rw [BacksStay, BoardEvent.text]
    simp only [BoardEvent.event, hprinted]
    trivial
  | _ => exact hstays

namespace Userland

open Programs

/-! ### The program and the machine -/

/-- The call that the machine makes for the program.  `getargs` runs with interrupts disabled and
changes nothing. -/
def Syscall.call? : Syscall → Option Call
  | .openFile filename => some (.openFile filename)
  | .close fd => some (.close fd)
  | .read fd buf nbytes => some (.read fd (some buf) nbytes)
  | .write fd buf nbytes => some (.write fd (some buf) nbytes)
  | .getargs _ _ => none

/-- A process that runs a program: the machine, what is left of the program, what it has printed,
and the number of the calls that have returned. -/
structure Running (α : Type) where
  machine : Machine
  todo : UserProgram α
  printed : List UInt8
  calls : ℕ

/-- What happens next: the program makes its next call, a call of its goes on to its end, or
anything else. -/
inductive RunEvent
  | ask
  | answer
  | other (e : Event)

namespace Running

variable {α : Type}

/-- The machine is in another state. -/
def setMachine (s : Running α) (m : Machine) : Running α := { s with machine := m }

/-- The call `c` has returned, and the program goes on. -/
def reply (img : Image) (c : Syscall) (next : Reply → UserProgram α) (s : Running α)
    (m : Machine) : Option (Running α) :=
  (Session.serve img c ⟨s.machine.kernel, s.printed⟩).map fun (r, t) =>
    ⟨m, next r, t.printed, s.calls + 1⟩

/-- The process `p` makes the next call of the program. -/
def ask (img : Image) (p : ℤ) (s : Running α) : Option (Running α) :=
  match s.todo, s.machine.kernel.ctl.point with
  | .call c next, .user q =>
    if q ≠ p then none
    else
      match c.call? with
      | none => s.reply img c next s.machine
      | some call =>
        if EnablesInterrupts img s.machine.kernel call then
          (s.machine.step img (.begin call)).map s.setMachine
        else (s.machine.step img (.call call)).bind (s.reply img c next)
  | _, _ => none

/-- The call in which the process `p` is goes on to its end. -/
def answer (img : Image) (p : ℤ) (s : Running α) : Option (Running α) :=
  match s.todo, s.machine.kernel.ctl.point with
  | .call c next, .sys q _ =>
    if q ≠ p then none else (s.machine.step img .finish).bind (s.reply img c next)
  | _, _ => none

/-- One step of the machine on which the process `p` runs a program. -/
def step (img : Image) (p : ℤ) : RunEvent → Running α → Option (Running α)
  | .ask, s => s.ask img p
  | .answer, s => s.answer img p
  | .other e, s =>
    if s.machine.kernel.ctl.point.proc = some p ∧ ¬e.Outside then none
    else (s.machine.step img e).map s.setMachine

/-- The conditions on a step: everything but the program itself is regular. -/
def Guard (img : Image) : RunEvent → Running α → Prop
  | .other e, s => Regular img e s.machine.kernel
  | _, _ => True

instance (img : Image) (e : RunEvent) (s : Running α) : Decidable (Guard img e s) :=
  match e with
  | .ask => .isTrue trivial
  | .answer => .isTrue trivial
  | .other e => inferInstanceAs (Decidable (Regular img e s.machine.kernel))

/-- The program goes on whenever the processor is in it, or in a call of its. -/
structure Proceeds (img : Image) (p : ℤ) (s : Running α) : Prop where
  ask : s.machine.kernel.ctl.point = .user p → (s.ask img p).isSome
  answer : ∀ call, s.machine.kernel.ctl.point = .sys p call → (s.answer img p).isSome

/-- The process `p` of the terminal `t` is alive.  It has made fewer than `n` calls and goes on, or it
has made `n` calls, has printed the text and is at its end with the value `a`. -/
def AsAlone (img : Image) (t : ℕ) (p : ℤ) (n : ℕ) (a : α) (text : List UInt8) (s : Running α) :
    Prop :=
  (s.machine.kernel.context t).point.runs = some p ∧
    (s.calls < n ∧ s.Proceeds img p ∨ s.calls = n ∧ s.todo = .done a ∧ s.printed = text)

/-- On the terminal `t` the process `p` runs the program, and the machine represents the state that
it has for itself. -/
structure Represents (t : ℕ) (p : ℤ) (s : Running α) (o : Own) : Prop where
  inv : Inv s.machine.kernel s.machine.live
  sound : s.machine.kernel.board.Sound
  top : ∃ l, s.machine.live t = p :: l
  runs : (s.machine.kernel.context t).point.runs = some p
  asked : ∀ q call, (s.machine.kernel.context t).point = .sys q call →
    ∃ c next, s.todo = .call c next ∧ c.call? = some call
  fds : (s.machine.kernel.pcbOf p).fdArr = o.fds
  args : (s.machine.kernel.pcbOf p).args = o.argument.byteAt
  nonzero : ∀ x ∈ o.argument, x ≠ 0
  rate : s.machine.kernel.rtc.freq t = o.rate
  printed : s.printed = o.printed

namespace Represents

variable {img : Image} {t : ℕ} {p : ℤ} {s s' : Running α} {o o' : Own}

lemma mem (h : s.Represents t p o) : p ∈ s.machine.live t := by
  obtain ⟨l, hlive⟩ := h.top
  rw [hlive]
  exact List.mem_cons_self ..

/-- The process runs on its terminal only. -/
lemma sched_of_proc (h : s.Represents t p o)
    (hproc : s.machine.kernel.ctl.point.proc = some p) : s.machine.kernel.scheduledTerm = t := by
  obtain ⟨l, hlive, -⟩ := h.inv.proc hproc
  by_contra hne
  exact h.inv.disjoint _ t hne p (hlive ▸ List.mem_cons_self ..) h.mem

/-- Where its terminal is scheduled, the process runs. -/
lemma runs_of_sched (h : s.Represents t p o) (ht : s.machine.kernel.scheduledTerm = t) :
    s.machine.kernel.ctl.point.runs = some p := by
  have hruns := h.runs
  subst ht
  rwa [Kernel.context_self] at hruns

/-- It is the process of its terminal. -/
lemma pid (h : s.Represents t p o) : (s.machine.kernel.terms t).pid = p := by
  obtain ⟨l, htop⟩ := h.top
  have hruns := h.runs
  cases h.inv.term t with
  | live hlive hpid _ =>
    rw [hpid]
    exact (List.cons.inj (hlive.symm.trans htop)).1
  | restart _ _ _ _ _ hctx =>
    rw [hctx] at hruns
    exact absurd hruns (by simp [Point.runs])
  | unused _ hlive _ =>
    rw [hlive] at htop
    exact absurd htop (by simp)

/-- While the process runs, the kernel has its state. -/
lemma owns (h : s.Represents t p o) (hruns : s.machine.kernel.ctl.point.runs = some p) :
    Owns ⟨s.machine.kernel, s.printed⟩ o := by
  have hsched := h.sched_of_proc (Point.proc_of_runs hruns)
  have hpcb : s.machine.kernel.pcb = s.machine.kernel.pcbOf p := by
    rw [Kernel.pcb, (h.inv.cpu p hruns).thisPcb, Kernel.pcbOf]
  refine ⟨?_, ?_, h.nonzero, ?_, h.printed, h.sound.tables, h.sound.onScreen _⟩
  · exact hpcb ▸ h.fds
  · exact hpcb ▸ h.args
  · exact hsched ▸ h.rate

/-- A step from outside of the process, or of another one. -/
lemma other {e : Event} (h : s.Represents t p o) (hok : Regular img e s.machine.kernel)
    (hs : s.step img p (.other e) = some s') :
    s'.Represents t p o ∧ s'.todo = s.todo ∧ s'.calls = s.calls := by
  rw [step] at hs
  split at hs
  · exact absurd hs (by simp)
  rename_i hout
  obtain ⟨m', hm, rfl⟩ := Option.map_eq_some_iff.1 hs
  refine ⟨?_, rfl, rfl⟩
  have hinv := h.inv.step hok.orderly hm
  obtain ⟨k', hk, hm'⟩ := Option.map_eq_some_iff.1 hm
  obtain ⟨k, live⟩ := m'
  obtain ⟨rfl, hlive⟩ := Machine.mk.inj hm'
  have hsound := sound_step h.sound hok.backsStay hk
  -- it is enough that the process stays where it is, or is entered
  suffices hkeeps : live t = s.machine.live t ∧
      ((k'.context t).point = (s.machine.kernel.context t).point ∨
        (k'.context t).point = .user p) ∧
      ((k'.pcbOf p).fdArr = (s.machine.kernel.pcbOf p).fdArr ∧
        (k'.pcbOf p).args = (s.machine.kernel.pcbOf p).args) ∧
      k'.rtc.freq t = s.machine.kernel.rtc.freq t by
    obtain ⟨hlive, hpoint, ⟨hfds, hargs⟩, hfreq⟩ := hkeeps
    refine ⟨hinv, hsound, ?_, ?_, fun q call hq => ?_, hfds.trans h.fds, hargs.trans h.args,
      h.nonzero, hfreq.trans h.rate, h.printed⟩
    · obtain ⟨l, htop⟩ := h.top
      exact ⟨l, hlive.trans htop⟩
    · change (k'.context t).point.runs = some p
      rcases hpoint with heq | heq
      · rw [heq]
        exact h.runs
      · rw [heq]
        rfl
    · change (k'.context t).point = .sys q call at hq
      rcases hpoint with heq | heq
      · exact h.asked q call (heq ▸ hq)
      · exact absurd (heq.symm.trans hq) (by simp)
  by_cases htick : e.isTick = true
  · -- a tick saves the context of the process, or resumes it
    obtain rfl := Event.eq_tick htick
    obtain rfl := pitHandler_of_tick hk
    have hticked := pitHandler_ticked s.machine.kernel
    have hpid : (s.machine.kernel.terms t).pid ≠ -1 := by
      have hrange := h.inv.range t p h.mem
      rw [h.pid]
      omega
    obtain ⟨hpoint, -⟩ := h.inv.tick_context hticked (hok.orderly.tickSafe rfl) t hpid
    refine ⟨?_, Or.inl hpoint, ?_, ?_⟩
    · rw [← hlive]
      rfl
    · exact h.inv.pcb_elsewhere hok.orderly hm h.mem fun hno => absurd hno (by decide)
    · rw [pitHandler_rtc]
  have htick' : e.isTick = false := Bool.eq_false_iff.2 htick
  by_cases hsched : t = s.machine.kernel.scheduledTerm
  · -- where the process runs, only interrupts come
    have hruns := h.runs_of_sched hsched.symm
    have houtside : e.Outside := by
      by_contra hno
      exact hout ⟨Point.proc_of_runs hruns, hno⟩
    cases e with
    | key control chr =>
      obtain ⟨d, rfl, hkept⟩ := key_step h.sound hok hk
      refine ⟨?_, Or.inl ?_, ⟨rfl, rfl⟩, rfl⟩
      · rw [← hlive]
        rfl
      · rw [Kernel.context, Kernel.context, if_pos hsched,
          if_pos (hsched.trans hkept.scheduledTerm.symm)]
    | enter =>
      cases step_cases hk with
      | @enter c hpt =>
        have hc : c = p := by
          rw [hpt] at hruns
          exact Option.some.inj hruns
        refine ⟨?_, Or.inr ?_, ⟨rfl, rfl⟩, rfl⟩
        · rw [← hlive]
          rfl
        · rw [Kernel.context, if_pos hsched, hc]
    | tick => exact absurd rfl htick
    | _ => exact absurd houtside id
  · have helse := h.inv.elsewhere hok.orderly hm htick' hsched
    refine ⟨helse.live, Or.inl (by rw [helse.context]), ?_, freq_elsewhere hk hsched⟩
    refine h.inv.pcb_elsewhere hok.orderly hm h.mem fun _ hproc => ?_
    exact hsched (h.sched_of_proc hproc).symm

end Represents

/-! ### The calls of the program -/

lemma done?_eq_some {β : Type} {x : Outcome β} {b : β} (h : done? x = some b) : x = .done b := by
  cases x with
  | done b' => rw [Option.some.inj h]
  | waits => exact absurd h (by simp [done?])
  | fault k => exact absurd h (by simp [done?])

/-- The call that the machine makes is that of the program. -/
lemma call_of_serve {img : Image} {c : Syscall} {call : Call} {u u' : Session} {r : Reply}
    (hc : c.call? = some call) (hs : u.serve img c = some (r, u')) :
    u.kernel.call img call = .done (r.1, u'.kernel) := by
  cases c with
  | openFile filename =>
    obtain rfl := Option.some.inj hc
    obtain ⟨⟨ret, k⟩, hdone, heq⟩ := Option.map_eq_some_iff.1 hs
    obtain ⟨rfl, rfl⟩ := Prod.mk.inj heq
    exact done?_eq_some hdone
  | close fd =>
    obtain rfl := Option.some.inj hc
    obtain ⟨⟨ret, k⟩, hdone, heq⟩ := Option.map_eq_some_iff.1 hs
    obtain ⟨rfl, rfl⟩ := Prod.mk.inj heq
    exact done?_eq_some hdone
  | read fd buf nbytes =>
    obtain rfl := Option.some.inj hc
    obtain ⟨⟨ret, buf', k⟩, hdone, heq⟩ := Option.map_eq_some_iff.1 hs
    obtain ⟨rfl, rfl⟩ := Prod.mk.inj heq
    rw [Kernel.call, done?_eq_some hdone]
    rfl
  | write fd buf nbytes =>
    obtain rfl := Option.some.inj hc
    obtain ⟨⟨ret, k⟩, hdone, heq⟩ := Option.map_eq_some_iff.1 hs
    obtain ⟨rfl, rfl⟩ := Prod.mk.inj heq
    exact done?_eq_some hdone
  | getargs buf nbytes => exact absurd hc (by simp [Syscall.call?])

/-- A call that is a function of the own state writes no backspace. -/
lemma notMem_of_serve {img : Image} {c : Syscall} {call : Call} {u : Session} {o o' : Own}
    {r : Reply} (h : Owns u o) (hc : c.call? = some call) (ho : o.serve img c = some (r, o'))
    {cs : List UInt8} (hw : u.kernel.written? call = some cs) : 8 ∉ cs := by
  cases c with
  | write fd buf nbytes =>
    obtain rfl := Option.some.inj hc
    rw [Kernel.written?] at hw
    split at hw
    · exact absurd hw (by simp)
    rename_i hbad
    split at hw
    · rename_i hops
      obtain rfl := Option.some.inj hw
      rw [Own.serve, if_neg (mt (h.refused_iff fd nbytes).2 hbad), Own.writeTo, ← h.fds, hops] at ho
      dsimp only at ho
      split at ho
      · exact absurd ho (by simp)
      · assumption
    · exact absurd hw (by simp)
  | openFile filename =>
    obtain rfl := Option.some.inj hc
    exact absurd hw (by simp [Kernel.written?])
  | close fd =>
    obtain rfl := Option.some.inj hc
    exact absurd hw (by simp [Kernel.written?])
  | read fd buf nbytes =>
    obtain rfl := Option.some.inj hc
    exact absurd hw (by simp [Kernel.written?])
  | getargs buf nbytes => exact absurd hc (by simp [Syscall.call?])

namespace Represents

variable {img : Image} {t : ℕ} {p : ℤ} {s s' : Running α} {o o' : Own} {c : Syscall} {call : Call}
  {next : Reply → UserProgram α} {r : Reply}

/-- Back in the program, the process has what the kernel has. -/
lemma of_owns {m : Machine} {todo : UserProgram α} {printed : List UInt8} {calls : ℕ}
    (hinv : Inv m.kernel m.live) (hsound : m.kernel.board.Sound) (htop : ∃ l, m.live t = p :: l)
    (hpt : m.kernel.ctl.point = .user p) (h : Owns ⟨m.kernel, printed⟩ o) :
    Represents t p ⟨m, todo, printed, calls⟩ o := by
  have hruns : m.kernel.ctl.point.runs = some p := by rw [hpt]; rfl
  have hsched : m.kernel.scheduledTerm = t := by
    obtain ⟨l, hlive, -⟩ := hinv.proc (Point.proc_of_runs hruns)
    obtain ⟨l', hlive'⟩ := htop
    by_contra hne
    exact hinv.disjoint _ t hne p (hlive ▸ List.mem_cons_self ..) (hlive' ▸ List.mem_cons_self ..)
  have hpcb : m.kernel.pcbOf p = m.kernel.pcb := by
    rw [Kernel.pcb, (hinv.cpu p hruns).thisPcb, Kernel.pcbOf]
  subst hsched
  refine ⟨hinv, hsound, htop, ?_, fun q call hq => ?_, ?_, ?_, h.nonzero, h.rate, h.printed⟩
  · rw [Kernel.context_self]
    exact hruns
  · rw [Kernel.context_self, hpt] at hq
    exact absurd hq (by simp)
  · exact hpcb ▸ h.fds
  · exact hpcb ▸ h.args

/-- `getargs` returns, and the program goes on. -/
lemma getargs (next : Reply → UserProgram α) (h : s.Represents t p o)
    (hpt : s.machine.kernel.ctl.point = .user p)
    {buf : Buf} {nbytes : Int32} (ho : o.serve img (.getargs buf nbytes) = some (r, o')) :
    ∃ s', s.reply img (.getargs buf nbytes) next s.machine = some s' ∧ s'.todo = next r ∧
      s'.calls = s.calls + 1 ∧ s'.Represents t p o' := by
  have howns := h.owns (by rw [hpt]; rfl)
  obtain ⟨u, hserve, howns'⟩ := serve_getargs howns ho
  obtain rfl : ⟨s.machine.kernel, s.printed⟩ = u := by
    obtain ⟨r', -, heq⟩ := Option.map_eq_some_iff.1 hserve
    exact (Prod.mk.inj heq).2
  refine ⟨⟨s.machine, next r, s.printed, s.calls + 1⟩, ?_, rfl, rfl, ?_⟩
  · rw [reply, hserve]
    rfl
  · exact of_owns h.inv h.sound h.top hpt howns'

/-- A call of the machine returns, and the program goes on. -/
lemma called {e : Event} (next : Reply → UserProgram α) (h : s.Represents t p o)
    (hruns : s.machine.kernel.ctl.point.runs = some p) (hc : c.call? = some call)
    (he : e.call? s.machine.kernel = some call) (hkey : e.isKey = false)
    (horderly : Orderly img e s.machine.kernel) (hstarts : e.starts = false)
    (hends : e.ends = false) (hprinted : e.printed? s.machine.kernel = none)
    (hstep : WnajOS.step img e s.machine.kernel =
      endCall p call s.machine.kernel (s.machine.kernel.call img call))
    (ho : o.serve img c = some (r, o')) :
    ∃ s', (s.machine.step img e).bind (s.reply img c next) = some s' ∧ s'.todo = next r ∧
      s'.calls = s.calls + 1 ∧ s'.Represents t p o' := by
  have howns := h.owns hruns
  obtain ⟨u, hserve, howns'⟩ := (serve_simulates img).serve c _ o r o' howns ho
  obtain ⟨k', hk'⟩ : ∃ k', { u.kernel with ctl := ⟨.user p, s.machine.kernel.kstack⟩ } = k' :=
    ⟨_, rfl⟩
  have hk : WnajOS.step img e s.machine.kernel = some k' := by
    rw [hstep, call_of_serve hc hserve, ← hk']
    rfl
  have hm : s.machine.step img e = some ⟨k', s.machine.live⟩ := by
    rw [Machine.step, hk, Option.map_some, liveAfter, hstarts, hends]
    rfl
  have hback : BacksStay (.other e) s.machine.kernel.board := by
    refine backsStay_of_call hkey hprinted fun cs hw => ?_
    rw [Event.written?, he, Option.bind_some] at hw
    exact notMem_of_serve howns hc ho hw
  have hinv := h.inv.step horderly hm
  have hsound := sound_step h.sound hback hk
  refine ⟨⟨⟨k', s.machine.live⟩, next r, u.printed, s.calls + 1⟩, ?_, rfl, rfl, ?_⟩
  · rw [hm, Option.bind_some, reply, hserve]
    rfl
  · subst hk'
    refine of_owns hinv hsound h.top rfl ?_
    exact ⟨howns'.fds, howns'.args, howns'.nonzero, howns'.rate, howns'.printed, howns'.tables,
      howns'.cursor⟩

/-- A call that enables interrupts has begun. -/
lemma begun (h : s.Represents t p o) (htodo : s.todo = .call c next) (hc : c.call? = some call)
    (hpt : s.machine.kernel.ctl.point = .user p)
    (hen : EnablesInterrupts img s.machine.kernel call) :
    ∃ s', (s.machine.step img (.begin call)).map s.setMachine = some s' ∧ s'.todo = s.todo ∧
      s'.calls = s.calls ∧ s'.Represents t p o := by
  have hruns : s.machine.kernel.ctl.point.runs = some p := by rw [hpt]; rfl
  have hsched := h.sched_of_proc (Point.proc_of_runs hruns)
  have hfields : (beginCall s.machine.kernel call).pcbs = s.machine.kernel.pcbs ∧
      (beginCall s.machine.kernel call).scheduledTerm = s.machine.kernel.scheduledTerm ∧
      (beginCall s.machine.kernel call).rtc = s.machine.kernel.rtc := by
    cases call with
    | write => exact ⟨rfl, Display.writePatch_scheduledTerm _, rfl⟩
    | _ => exact ⟨rfl, rfl, rfl⟩
  obtain ⟨k', hk'⟩ : ∃ k', { beginCall s.machine.kernel call with
      ctl := ⟨.sys p call, s.machine.kernel.kstack⟩ } = k' := ⟨_, rfl⟩
  have hk : WnajOS.step img (.begin call) s.machine.kernel = some k' := by
    simp only [WnajOS.step, hpt, if_pos hen, ← hk']
  have hm : s.machine.step img (.begin call) = some ⟨k', s.machine.live⟩ := by
    rw [Machine.step, hk, Option.map_some]
    rfl
  have hback : BacksStay (.other (.begin call)) s.machine.kernel.board :=
    backsStay_of_call rfl rfl fun cs hw => absurd hw (by simp [Event.written?, Event.call?])
  have hinv := h.inv.step (orderly_of_call rfl rfl rfl rfl) hm
  have hsound := sound_step h.sound hback hk
  obtain ⟨hpcbs, hterm, hrtc⟩ := hfields
  have hctx : k'.context t = ⟨.sys p call, s.machine.kernel.kstack⟩ := by
    rw [Kernel.context, ← hk', if_pos (hterm.trans hsched).symm]
  have hpcb : k'.pcbOf p = s.machine.kernel.pcbOf p := by
    rw [Kernel.pcbOf, ← hk']
    exact congrFun hpcbs _
  have hfreq : k'.rtc.freq t = s.machine.kernel.rtc.freq t := by
    rw [← hk', hrtc]
  refine ⟨s.setMachine ⟨k', s.machine.live⟩, by rw [hm]; rfl, rfl, rfl, hinv, hsound, h.top, ?_,
    fun q call' hq => ?_, ?_, ?_, h.nonzero, hfreq.trans h.rate, h.printed⟩
  · change (k'.context t).point.runs = some p
    rw [hctx]
    rfl
  · change (k'.context t).point = .sys q call' at hq
    rw [hctx] at hq
    obtain ⟨-, rfl⟩ := Point.sys.inj hq
    exact ⟨c, next, htodo, hc⟩
  · exact (congrArg Pcb.fdArr hpcb).trans h.fds
  · exact (congrArg Pcb.args hpcb).trans h.args

/-- **The next call.**  In the program the process makes it; it returns with the reply that the
program has alone, or enables interrupts first. -/
lemma ask (h : s.Represents t p o) (htodo : s.todo = .call c next)
    (hpt : s.machine.kernel.ctl.point = .user p) (ho : o.serve img c = some (r, o')) :
    ∃ s', s.ask img p = some s' ∧
      (s'.todo = .call c next ∧ s'.calls = s.calls ∧ s'.Represents t p o ∨
        s'.todo = next r ∧ s'.calls = s.calls + 1 ∧ s'.Represents t p o') := by
  have hruns : s.machine.kernel.ctl.point.runs = some p := by rw [hpt]; rfl
  rw [Running.ask, htodo, hpt]
  simp only [ne_eq, not_true_eq_false, if_false]
  cases hc : c.call? with
  | none =>
    cases c with
    | getargs buf nbytes =>
      obtain ⟨s', hs, hrest⟩ := getargs next h hpt ho
      exact ⟨s', hs, Or.inr hrest⟩
    | _ => exact absurd hc (by simp [Syscall.call?])
  | some call =>
    dsimp only
    split
    · rename_i hen
      obtain ⟨s', hs, hrest⟩ := h.begun htodo hc hpt hen
      exact ⟨s', hs, Or.inl (htodo ▸ hrest)⟩
    · rename_i hen
      obtain ⟨s', hs, hrest⟩ := called (e := .call call) next h hruns hc rfl rfl
        (orderly_of_call rfl rfl rfl rfl) rfl rfl rfl
        (by simp only [WnajOS.step, hpt, if_neg hen]) ho
      exact ⟨s', hs, Or.inr hrest⟩

/-- **The end of a call** that enables interrupts. -/
lemma answer (h : s.Represents t p o) (htodo : s.todo = .call c next)
    (hpt : s.machine.kernel.ctl.point = .sys p call) (ho : o.serve img c = some (r, o')) :
    ∃ s', s.answer img p = some s' ∧ s'.todo = next r ∧ s'.calls = s.calls + 1 ∧
      s'.Represents t p o' := by
  have hruns : s.machine.kernel.ctl.point.runs = some p := by rw [hpt]; rfl
  have hsched := h.sched_of_proc (Point.proc_of_runs hruns)
  have hc : c.call? = some call := by
    subst hsched
    obtain ⟨c', next', htodo', hc'⟩ := h.asked p call (by rw [Kernel.context_self, hpt])
    rw [htodo] at htodo'
    obtain ⟨rfl, -⟩ := Program.call.inj htodo'
    exact hc'
  rw [Running.answer, htodo, hpt]
  simp only [ne_eq, not_true_eq_false, if_false]
  exact called (e := .finish) next h hruns hc (by simp [Event.call?, hpt]) rfl
    (orderly_of_call rfl rfl rfl rfl) rfl rfl rfl (by simp only [WnajOS.step, hpt]) ho

end Represents

/-! ### Every run -/

lemma eq_of_ask {img : Image} {p : ℤ} {s s' : Running α} (hs : s.ask img p = some s') :
    (∃ c next, s.todo = .call c next) ∧ s.machine.kernel.ctl.point = .user p := by
  rw [Running.ask] at hs
  split at hs
  · rename_i c next q htodo hpt
    split at hs
    · exact absurd hs (by simp)
    · rename_i hq
      exact ⟨⟨c, next, htodo⟩, hpt.trans (congrArg Point.user (not_not.1 hq))⟩
  · exact absurd hs (by simp)

lemma eq_of_answer {img : Image} {p : ℤ} {s s' : Running α} (hs : s.answer img p = some s') :
    (∃ c next, s.todo = .call c next) ∧ ∃ call, s.machine.kernel.ctl.point = .sys p call := by
  rw [Running.answer] at hs
  split at hs
  · rename_i c next q call htodo hpt
    split at hs
    · exact absurd hs (by simp)
    · rename_i hq
      obtain rfl := not_not.1 hq
      exact ⟨⟨c, next, htodo⟩, call, hpt⟩
  · exact absurd hs (by simp)

/-- The machine represents the state that the program has after as many calls alone. -/
def Follows (img : Image) (t : ℕ) (p : ℤ) (prog : UserProgram α) (o : Own) (s : Running α) :
    Prop :=
  ∃ o₁, Program.after (Own.serve img) s.calls prog o = some (s.todo, o₁) ∧ s.Represents t p o₁

/-- The program has a next call that is answered alone, or is at its end. -/
def Steady (img : Image) (prog : UserProgram α) (o o' : Own) (a : α) (n : ℕ) : Prop :=
  ∀ m q u, Program.after (Own.serve img) m prog o = some (q, u) →
    (m < n ∧ ∃ c next r v, q = .call c next ∧ u.serve img c = some (r, v)) ∨
    (m = n ∧ q = .done a ∧ u = o')

section Runs

variable {img : Image} {t : ℕ} {p : ℤ} {prog : UserProgram α} {o o' : Own} {a : α} {n : ℕ}
  {s s' : Running α}

/-- A program that has a call left. -/
lemma Steady.call (h : Steady img prog o o' a n) {u : Own} {c : Syscall}
    {next : Reply → UserProgram α}
    (hafter : Program.after (Own.serve img) s.calls prog o = some (s.todo, u))
    (htodo : s.todo = .call c next) : ∃ r v, u.serve img c = some (r, v) := by
  rcases h _ _ _ hafter with ⟨-, c', next', r, v, htodo', hserve⟩ | ⟨-, hdone, -⟩
  · obtain ⟨rfl, -⟩ := Program.call.inj (htodo.symm.trans htodo')
    exact ⟨r, v, hserve⟩
  · exact absurd (htodo.symm.trans hdone) (by simp)

/-- **One step.** -/
lemma Follows.step (h : s.Follows img t p prog o) (halone : Steady img prog o o' a n)
    {e : RunEvent} (hok : Guard img e s) (hs : s.step img p e = some s') :
    s'.Follows img t p prog o := by
  obtain ⟨u, hafter, hrep⟩ := h
  cases e with
  | other e =>
    obtain ⟨hrep', htodo, hcalls⟩ := hrep.other hok hs
    exact ⟨u, by rw [htodo, hcalls]; exact hafter, hrep'⟩
  | ask =>
    obtain ⟨⟨c, next, htodo⟩, hpt⟩ := eq_of_ask hs
    obtain ⟨r, v, hserve⟩ := halone.call hafter htodo
    obtain ⟨s₁, hs₁, hcases⟩ := hrep.ask htodo hpt hserve
    obtain rfl : s' = s₁ := Option.some.inj (Eq.trans (Eq.symm hs) hs₁)
    rcases hcases with ⟨htodo', hcalls, hrep'⟩ | ⟨htodo', hcalls, hrep'⟩
    · exact ⟨u, by rw [htodo', hcalls, ← htodo]; exact hafter, hrep'⟩
    · refine ⟨v, ?_, hrep'⟩
      rw [htodo', hcalls]
      exact Program.after_succ (htodo ▸ hafter) hserve
  | answer =>
    obtain ⟨⟨c, next, htodo⟩, call, hpt⟩ := eq_of_answer hs
    obtain ⟨r, v, hserve⟩ := halone.call hafter htodo
    obtain ⟨s₁, hs₁, htodo', hcalls, hrep'⟩ := hrep.answer htodo hpt hserve
    obtain rfl : s' = s₁ := Option.some.inj (Eq.trans (Eq.symm hs) hs₁)
    refine ⟨v, ?_, hrep'⟩
    rw [htodo', hcalls]
    exact Program.after_succ (htodo ▸ hafter) hserve

/-- Every run. -/
lemma Follows.reach {m : Machine} (hstart : Represents t p ⟨m, prog, o.printed, 0⟩ o)
    (halone : Steady img prog o o' a n)
    (h : Runs.Reach (Running.step img p) (Guard img) ⟨m, prog, o.printed, 0⟩ s) :
    s.Follows img t p prog o := by
  refine h.invariant (P := Follows img t p prog o) ⟨o, rfl, hstart⟩ ?_
  exact fun e s s' h hok hs => h.step halone hok hs

/-- A program that has a call left goes on, and another one is at its end. -/
lemma Follows.asAlone (h : s.Follows img t p prog o) (halone : Steady img prog o o' a n) :
    s.AsAlone img t p n a o'.printed := by
  obtain ⟨u, hafter, hrep⟩ := h
  refine ⟨hrep.runs, ?_⟩
  rcases halone _ _ _ hafter with ⟨hlt, c, next, r, v, htodo, hserve⟩ | ⟨heq, hdone, rfl⟩
  · refine Or.inl ⟨hlt, fun hpt => ?_, fun call hpt => ?_⟩
    · obtain ⟨s₁, hs₁, -⟩ := hrep.ask htodo hpt hserve
      rw [hs₁]
      rfl
    · obtain ⟨s₁, hs₁, -⟩ := hrep.answer htodo hpt hserve
      rw [hs₁]
      rfl
  · exact Or.inr ⟨heq, hdone, hrep.printed⟩

end Runs

end Running

end Userland

end WnajOS
