import WnajOS.ClockSteps

/-!
# How long a read of the RTC waits

While a process is in the loop of `rtc_read`, its terminal's counter is what is left of the
number it was set to, and its kernel stack is resumed only where its terminal is the scheduled
one.  So the index that the loop reads anew at each turn is always the one it was started with.

The read cannot return before its number of interrupts has been handled.  It can return from
then on, but only when its terminal is scheduled: interrupts that come while another terminal
has the processor make the wait longer.
-/

namespace WnajOS

/-! ### The reads in the loop -/

/-- The process `p` is in the loop of `rtc_read`: its terminal runs or resumes the loop, and the
counter holds what is left of its wait. -/
structure Waiting (k : Kernel) (p : ℤ) (w : Wait) : Prop where
  process : p ≠ -1
  pid : (k.terms w.term).pid = p
  loop : ∃ c, (k.context w.term).point = .sys p c
  counter : 0 < w.rate.toInt →
    (k.rtc.counter w.term).toInt = max 0 (512 / w.rate.toInt - w.handled)

/-- Every read that has not returned is in its loop. -/
structure Paced (C : Clock) : Prop where
  inv : Inv C.machine.kernel C.machine.live
  waiting : ∀ p w, C.waits p = some w → Waiting C.machine.kernel p w

namespace Waiting

variable {k k' : Kernel} {live : Ledger} {p q : ℤ} {w w' : Wait}

/-- What a wait depends on. -/
lemma congr (h : Waiting k p w) (hpid : (k'.terms w.term).pid = (k.terms w.term).pid)
    (hctx : (k'.context w.term).point = (k.context w.term).point)
    (hcounter : k'.rtc.counter w.term = k.rtc.counter w.term) : Waiting k' p w :=
  ⟨h.process, hpid.trans h.pid, by rw [hctx]; exact h.loop, by rw [hcounter]; exact h.counter⟩

lemma term_lt (h : Waiting k p w) (hinv : Inv k live) : w.term < numTtys := by
  by_contra hge
  exact h.process (h.pid.symm.trans (hinv.outside w.term (by omega)))

/-- Where the processor runs a process that waits, the scheduled terminal is the one its read
began on. -/
lemma scheduled (h : Waiting k p w) (hinv : Inv k live) (hp : k.ctl.point.proc = some p) :
    w.term = k.scheduledTerm := by
  obtain ⟨l, -, hcur⟩ := hinv.proc hp
  by_contra hne
  exact h.process (h.pid ▸ hinv.distinct _ _ hne (h.pid.trans hcur.symm))

/-- A step within the process `p` does not concern another process that waits. -/
lemma elsewhere (h : Waiting k q w) (hinv : Inv k live) (hp : k.ctl.point.proc = some p)
    (hq : q ≠ p) (hsched : k'.scheduledTerm = k.scheduledTerm) (hterms : k'.terms = k.terms)
    (hpcbs : k'.pcbs = k.pcbs)
    (hcounter : ∀ t, t ≠ k.scheduledTerm → k'.rtc.counter t = k.rtc.counter t) :
    Waiting k' q w := by
  have hne : w.term ≠ k.scheduledTerm := by
    intro heq
    obtain ⟨l, -, hcur⟩ := hinv.proc hp
    rw [Kernel.cur, ← heq, h.pid] at hcur
    exact hq hcur
  refine h.congr (by rw [hterms]) ?_ (hcounter _ hne)
  rw [k.context_of_ne hne, k'.context_of_ne (hsched ▸ hne), Kernel.pcbOf, Kernel.pcbOf, hpcbs,
    hterms]

end Waiting

/-! ### The counters -/

/-- One interrupt less to wait for. -/
lemma toInt_sub_one {x : Int32} (h0 : 0 ≤ x.toInt) :
    (if x ≠ 0 then x - 1 else x).toInt = max 0 (x.toInt - 1) := by
  by_cases hx : x = 0
  · subst hx
    decide
  · have hne : x.toInt ≠ 0 := fun h => hx (Int32.toInt_inj.1 h)
    have hlt := Int32.toInt_lt x
    rw [if_pos hx, Int32.toInt_sub, Int32.toInt_one, Int.bmod_eq_of_le (by omega) (by omega)]
    omega

/-- The number that `rtc_read` sets the counter to. -/
lemma toInt_div {rate : Int32} (h : 0 < rate.toInt) : (512 / rate).toInt = 512 / rate.toInt := by
  have hdiv : (512 : Int32).toInt.tdiv rate.toInt = 512 / rate.toInt :=
    Int.tdiv_eq_ediv_of_nonneg (by decide)
  have hle : 512 / rate.toInt ≤ 512 := Int.ediv_le_self _ (by decide)
  have hge : 0 ≤ 512 / rate.toInt := Int.ediv_nonneg (by decide) h.le
  rw [Int32.toInt_div, hdiv, Int.bmod_eq_of_le (by omega) (by omega)]

/-- An interrupt of the RTC. -/
lemma Waiting.interrupt {k : Kernel} {live : Ledger} {p : ℤ} {w : Wait} (h : Waiting k p w)
    (hinv : Inv k live) :
    Waiting { k with rtc := k.rtc.rtcHandler } p { w with handled := w.handled + 1 } := by
  refine ⟨h.process, h.pid, h.loop, fun hrate => ?_⟩
  have hcounter := h.counter hrate
  dsimp only
  rw [Rtc.rtcHandler_counter _ (h.term_lt hinv), toInt_sub_one (by omega), hcounter]
  omega

/-- The start of the loop. -/
lemma waiting_enterLoop {k : Kernel} {live : Ledger} {p : ℤ} {c : Call} {r : Rtc}
    (hinv : Inv k live) (hp : k.ctl.point = .user p) (hr : k.rtc.rtcRead k.scheduledTerm = some r) :
    Waiting { k with rtc := r, ctl := ⟨.sys p c, k.kstack⟩ } p
      ⟨k.scheduledTerm, k.rtc.freq k.scheduledTerm, 0⟩ := by
  obtain ⟨l, hlive, hcur⟩ := hinv.proc (p := p) (by rw [hp]; rfl)
  have hrange := hinv.range _ p (hlive ▸ List.mem_cons_self ..)
  refine ⟨by omega, hcur, ⟨c, ?_⟩, fun hrate => ?_⟩
  · rw [Kernel.context, if_pos rfl]
  · obtain ⟨-, rfl⟩ := Rtc.rtcRead_eq_some hr
    dsimp only at hrate ⊢
    have hge : 0 ≤ 512 / (k.rtc.freq k.scheduledTerm).toInt :=
      Int.ediv_nonneg (by decide) hrate.le
    rw [Function.update_self, toInt_div hrate]
    omega

/-! ### Every step -/

/-- The condition on a step: that of the processes. -/
def ClockOrderly (img : Image) : ClockEvent → Clock → Prop
  | .rtc, _ => True
  | .other e, C => Orderly img e C.machine.kernel

/-- While a process is in the loop of `rtc_read`, nothing happens on its terminal but keys, ticks
and exceptions. -/
lemma sys_step {img : Image} {e : Event} {k k' : Kernel} {p : ℤ} {c : Call}
    (hs : step img e k = some k') (hp : k.ctl.point = .sys p c) (htick : e.isTick = false)
    (hfinish : e ≠ .finish) : SameProcs k k' ∧ k'.rtc = k.rtc ∧
      (k'.ctl.point = k.ctl.point ∨ k'.ctl.point.raising? = some p) := by
  have hproc : ∀ q, k.ctl.point.proc = some q → q = p := by
    intro q hq
    rw [hp] at hq
    exact (Option.some.inj hq).symm
  cases step_cases hs with
  | tick => exact absurd htick (by decide)
  | finish => exact absurd rfl hfinish
  | @key control chr _ _ hk =>
    have hkeeps := Display.keyboardHandler_keeps control chr k.toDisplay
    obtain ⟨d, ⟨hd, rfl⟩ | ⟨hd, q, hq, rfl⟩⟩ := keyStep_eq_some hk
    · rw [hd] at hkeeps
      exact ⟨SameProcs.of_kept hkeeps, rfl, Or.inl rfl⟩
    · rw [hd] at hkeeps
      exact ⟨(SameProcs.of_kept hkeeps).setCtl, rfl, Or.inr (congrArg some (hproc q hq))⟩
  | raise hk =>
    obtain ⟨q, hq, rfl⟩ := raiseStep_eq_some hk
    exact ⟨(SameProcs.refl k).setCtl, rfl, Or.inr (congrArg some (hproc q hq))⟩
  | report hpt =>
    rw [hp] at hpt
    exact absurd hpt (by simp [Point.reports?])
  | _ hpt => exact absurd (hp.symm.trans hpt) (by simp)

lemma Event.eq_tick {e : Event} (h : e.isTick = true) : e = .tick := by
  cases e with
  | tick => rfl
  | _ => exact absurd h (by simp [Event.isTick])

lemma pitHandler_of_tick {img : Image} {k k' : Kernel} (hs : WnajOS.step img .tick k = some k') :
    k' = k.pitHandler := by
  cases WnajOS.step_cases hs with
  | tick => rfl

/-- The notes that a step leaves. -/
lemma waits_settle {img : Image} {e : Event} {m : Machine} {C : Clock} {p : ℤ} {w : Wait}
    (h : (C.settle img e m).waits p = some w) : C.waits p = some w ∧
      m.kernel.ctl.point.raising? ≠ some p := by
  have hupdate : ∀ q, Function.update C.waits q none p = some w → C.waits p = some w ∧ q ≠ p := by
    intro q hq
    by_cases hqp : p = q
    · rw [hqp, Function.update_self] at hq
      exact absurd hq (by simp)
    · rw [Function.update_of_ne hqp] at hq
      exact ⟨hq, Ne.symm hqp⟩
  rw [Clock.settle] at h
  cases hi : (if e.starts then m.kernel.ctl.point.entering? else none) with
  | some i =>
    rw [hi] at h
    obtain ⟨hw, -⟩ := hupdate i h
    refine ⟨hw, fun hraising => ?_⟩
    split at hi
    · rw [Point.eq_entering hi] at hraising
      exact absurd hraising (by simp [Point.raising?])
    · exact absurd hi (by simp)
  | none =>
    rw [hi] at h
    dsimp only at h
    cases hq : m.kernel.ctl.point.raising? with
    | some q =>
      rw [hq] at h
      obtain ⟨hw, hne⟩ := hupdate q h
      exact ⟨hw, by simpa using hne⟩
    | none =>
      rw [hq] at h
      exact ⟨h, by simp⟩

namespace Paced

variable {img : Image} {C C' : Clock}

lemma interrupt (h : Paced C) : Paced C.interrupt := by
  refine ⟨?_, fun p w hw => ?_⟩
  · exact h.inv.same (SameProcs.refl _).setRtc (.refl _)
  · obtain ⟨w₀, hw₀, rfl⟩ := Option.map_eq_some_iff.1 hw
    exact (h.waiting p w₀ hw₀).interrupt h.inv

lemma enterLoop (h : Paced C) {p : ℤ} {c : Call} (hp : C.machine.kernel.ctl.point = .user p)
    (hs : C.enterLoop p c = some C') : Paced C' := by
  obtain ⟨r, hr, rfl⟩ := Option.map_eq_some_iff.1 hs
  have hcounter : ∀ t, t ≠ C.machine.kernel.scheduledTerm →
      r.counter t = C.machine.kernel.rtc.counter t := by
    intro t ht
    obtain ⟨-, rfl⟩ := Rtc.rtcRead_eq_some hr
    exact Function.update_of_ne ht _ _
  refine ⟨?_, fun q w hw => ?_⟩
  · have hsame : SameProcs C.machine.kernel { C.machine.kernel with rtc := r } :=
      (SameProcs.refl _).setRtc
    exact h.inv.same hsame.setCtl
      (.within (by rw [hp]; rfl) rfl rfl (Or.inr (by rw [hp]; rfl)))
  · dsimp only at hw ⊢
    by_cases hq : q = p
    · subst hq
      rw [Function.update_self] at hw
      obtain rfl := Option.some.inj hw
      exact waiting_enterLoop h.inv hp hr
    · rw [Function.update_of_ne hq] at hw
      exact (h.waiting q w hw).elsewhere h.inv (by rw [hp]; rfl) hq rfl rfl rfl hcounter

lemma leaveLoop (h : Paced C) {p : ℤ} {c : Call} (hp : C.machine.kernel.ctl.point = .sys p c)
    (hs : C.leaveLoop p = some C') : Paced C' := by
  obtain ⟨-, rfl⟩ := Clock.leaveLoop_eq_some hs
  refine ⟨?_, fun q w hw => ?_⟩
  · exact h.inv.same (SameProcs.refl _).setCtl
      (.within (by rw [hp]; rfl) rfl rfl (Or.inr (by rw [hp]; rfl)))
  · dsimp only at hw ⊢
    by_cases hq : q = p
    · rw [hq, Function.update_self] at hw
      exact absurd hw (by simp)
    · rw [Function.update_of_ne hq] at hw
      exact (h.waiting q w hw).elsewhere h.inv (by rw [hp]; rfl) hq rfl rfl rfl fun _ _ => rfl

lemma otherStep (h : Paced C) {e : Event} (ho : Orderly img e C.machine.kernel)
    (hfinish : e = .finish → ∀ p c, C.machine.kernel.ctl.point = .sys p c → C.waits p = none)
    (hs : C.otherStep img e = some C') : Paced C' := by
  obtain ⟨m, hm, rfl⟩ := Option.map_eq_some_iff.1 hs
  refine ⟨by rw [Clock.settle_machine]; exact h.inv.step ho hm, fun q w hw => ?_⟩
  obtain ⟨hw₀, hraising⟩ := waits_settle hw
  have hwait := h.waiting q w hw₀
  rw [Clock.settle_machine]
  cases htick : e.isTick with
  | true =>
    -- the context that a tick saves is the one it resumes later
    obtain rfl := Event.eq_tick htick
    have heff := step_effect hm
    obtain ⟨k', hk', rfl⟩ := Option.map_eq_some_iff.1 hm
    have hrtc : k'.rtc = C.machine.kernel.rtc := by
      have hpit := pitHandler_of_tick hk'
      rw [hpit, pitHandler_rtc]
    have hticked : Ticked C.machine.kernel k' := by
      rw [pitHandler_of_tick hk']
      exact pitHandler_ticked _
    have hctx := h.inv.tick_context hticked (ho.tickSafe rfl) w.term
      (by rw [hwait.pid]; exact hwait.process)
    exact hwait.congr (hticked.termPid _) hctx.1 (by rw [hrtc])
  | false =>
    by_cases hterm : w.term = C.machine.kernel.scheduledTerm
    · -- the process is in its loop now
      obtain ⟨c, hc⟩ := hwait.loop
      rw [hterm, Kernel.context_self] at hc
      obtain ⟨k', hk', rfl⟩ := Option.map_eq_some_iff.1 hm
      have hne : e ≠ .finish := by
        intro he
        rw [hfinish he q c hc] at hw₀
        exact absurd hw₀ (by simp)
      obtain ⟨hsame, hrtc, hpoint⟩ := sys_step hk' hc htick hne
      rcases hpoint with hpoint | hpoint
      · refine hwait.congr (hsame.termPid _) ?_ (by rw [hrtc])
        dsimp only
        rw [hterm, Kernel.context_self, ← hsame.scheduledTerm, Kernel.context_self, hpoint]
      · exact absurd hpoint hraising
    · have helse := h.inv.elsewhere ho hm htick hterm
      obtain ⟨k', hk', rfl⟩ := Option.map_eq_some_iff.1 hm
      exact hwait.congr helse.pid (by rw [helse.context]) ((step_rtc hk').counter _ hterm)

/-- **The step lemma.** -/
lemma step (h : Paced C) {e : ClockEvent} (ho : ClockOrderly img e C)
    (hs : Clock.step img e C = some C') : Paced C' := by
  cases Clock.step_cases hs with
  | interrupt => exact h.interrupt
  | enterLoop hp hs => exact h.enterLoop hp hs
  | leaveLoop hp hs => exact h.leaveLoop hp hs
  | otherStep hfinish hs => exact h.otherStep ho hfinish hs

end Paced

/-! ### Calls on the RTC, ticks and interrupts -/

/-- A tick, an interrupt of the RTC, or a step of a call on descriptors. -/
def ClockEvent.OfRtc : ClockEvent → Prop
  | .rtc => True
  | .other .tick => True
  | .other (.call _) => True
  | .other (.begin _) => True
  | .other .finish => True
  | .other _ => False

instance : DecidablePred ClockEvent.OfRtc
  | .rtc => .isTrue trivial
  | .other .tick => .isTrue trivial
  | .other (.call _) => .isTrue trivial
  | .other (.begin _) => .isTrue trivial
  | .other .finish => .isTrue trivial
  | .other (.key _ _) => .isFalse id
  | .other (.execute _ _) => .isFalse id
  | .other (.bootExec _) => .isFalse id
  | .other (.restartExec _) => .isFalse id
  | .other .enter => .isFalse id
  | .other (.raise _) => .isFalse id
  | .other .report => .isFalse id
  | .other .halt => .isFalse id
  | .other .raisedHalt => .isFalse id

instance (img : Image) (C : Clock) : DecidablePred fun e => ClockOrderly img e C
  | .rtc => .isTrue trivial
  | .other e => inferInstanceAs (Decidable (Orderly img e C.machine.kernel))

/-- Such a step needs no condition, unless the kernel is executing a shell of its own. -/
lemma ClockEvent.OfRtc.orderly {e : ClockEvent} (he : e.OfRtc) (img : Image) {C : Clock}
    (h : ¬C.machine.kernel.Exposed) : ClockOrderly img e C := by
  have hcall : ∀ e : Event, e.command? = none → e.ends = false → e.isOwn = false →
      Orderly img e C.machine.kernel := by
    intro e hcommand hends hown
    have hprogram : e.program? img = none := by rw [Event.program?, hcommand]
    refine ⟨fun hsome => ?_, fun hend => ?_, fun hshell => ?_, fun _ => h⟩
    · rw [hprogram] at hsome
      exact absurd hsome (by simp)
    · rw [hends] at hend
      exact absurd hend (by simp)
    · rw [hown] at hshell
      exact absurd hshell (by simp)
  cases e with
  | rtc => trivial
  | other e =>
    cases e with
    | tick => exact hcall _ rfl rfl rfl
    | call c => exact hcall _ rfl rfl rfl
    | begin c => exact hcall _ rfl rfl rfl
    | finish => exact hcall _ rfl rfl rfl
    | _ => exact absurd he id

/-- A tick resumes no process between the `sti` and the `iret` of a shell that the kernel executes
on another stack. -/
lemma tick_unexposed {k k' : Kernel} {live : Ledger} (h : Inv k live) (ht : Ticked k k')
    (hsafe : ¬k.Exposed) : ¬k'.Exposed := by
  rintro ⟨c, hc, hsaved, hstack⟩
  have hinv := h.tick ht hsafe
  have hcur : (k'.terms k'.scheduledTerm).pid = c := hinv.entering hc
  obtain ⟨l, hlive, -⟩ := hinv.proc (p := c) (by rw [Point.eq_entering hc]; rfl)
  have hrange := hinv.range _ c (hlive ▸ List.mem_cons_self ..)
  rw [ht.termPid] at hcur
  have hpid : (k.terms k'.scheduledTerm).pid ≠ -1 := by omega
  have hne : k'.scheduledTerm ≠ k.scheduledTerm := by
    rw [ht.scheduledTerm, numTtys]
    omega
  obtain ⟨hpoint, hkeeps⟩ := h.tick_context ht hsafe _ hpid
  rw [k'.context_self] at hpoint hkeeps
  have hentering : (k.context k'.scheduledTerm).point.entering?.isSome := by
    rw [← hpoint, hc]
    rfl
  have hpark := h.parked _ hne hpid hentering
  rw [hcur] at hpark
  have hpcb : (k'.pcbOf c).saved = (k.pcbOf c).saved := by
    rw [ht.pcbOf]
    split
    · rename_i heq
      rw [heq.1]
    · rfl
  rcases hpark with hlinkage | hown
  · exact hsaved (hpcb ▸ hlinkage)
  · exact hstack ((hkeeps hentering).trans hown)

lemma unexposed_of_point {k : Kernel} (h : k.ctl.point.entering? = none) : ¬k.Exposed := by
  rintro ⟨c, hc, -⟩
  rw [h] at hc
  exact absurd hc (by simp)

/-- A call leaves the processor in a program, in a system call or in an exception handler. -/
lemma endCall_entering {p : ℤ} {c : Call} {k k' : Kernel} {o : Outcome (Int32 × Kernel)}
    (hs : endCall p c k o = some k') : k'.ctl.point.entering? = none := by
  cases o with
  | waits => exact absurd hs (by simp [endCall])
  | done x =>
    obtain rfl := Option.some.inj hs
    rfl
  | fault k₁ =>
    obtain rfl := Option.some.inj hs
    exact (k.faultOf_proc p c).2.1

/-- After such a step the kernel is not executing a shell of its own. -/
lemma ClockEvent.OfRtc.unexposed {e : ClockEvent} (he : e.OfRtc) {img : Image} {C C' : Clock}
    (hinv : Inv C.machine.kernel C.machine.live) (h : ¬C.machine.kernel.Exposed)
    (hs : Clock.step img e C = some C') : ¬C'.machine.kernel.Exposed := by
  -- a step of the kernel that is no tick ends a call or begins one
  have hother : ∀ e : Event, (ClockEvent.other e).OfRtc → C.otherStep img e = some C' →
      ¬C'.machine.kernel.Exposed := by
    intro e he hs
    obtain ⟨m, hm, rfl⟩ := Option.map_eq_some_iff.1 hs
    rw [Clock.settle_machine]
    obtain ⟨k', hk', rfl⟩ := Option.map_eq_some_iff.1 hm
    dsimp only
    generalize C.machine.kernel = k at hinv h hk'
    cases step_cases hk' with
    | tick => exact tick_unexposed hinv (pitHandler_ticked k) h
    | call _ _ hk' => exact unexposed_of_point (endCall_entering hk')
    | begin => exact unexposed_of_point rfl
    | finish _ hk' => exact unexposed_of_point (endCall_entering hk')
    | _ => exact absurd he id
  cases Clock.step_cases hs with
  | interrupt => exact h
  | enterLoop hp hs =>
    obtain ⟨r, -, rfl⟩ := Option.map_eq_some_iff.1 hs
    exact unexposed_of_point rfl
  | leaveLoop hp hs =>
    obtain ⟨-, rfl⟩ := Clock.leaveLoop_eq_some hs
    exact unexposed_of_point rfl
  | otherStep hfinish hs => exact hother _ he hs

/-! ### The wait -/

/-- The read of `p` ends now: its loop is left, and its program goes on. -/
def ReadEnds (img : Image) (C : Clock) (p : ℤ) : Prop :=
  ∃ C', Clock.step img (.other .finish) C = some C' ∧ C'.waits p = none ∧
    C'.machine.kernel.ctl.point = .user p

/-- The read runs where its terminal is scheduled and nowhere else; there it ends when its
interrupts have been handled, and not before. -/
structure Timed (img : Image) (C : Clock) (p : ℤ) (w : Wait) : Prop where
  runs : (∃ c, C.machine.kernel.ctl.point = .sys p c) ↔ C.machine.kernel.scheduledTerm = w.term
  ends : C.machine.kernel.scheduledTerm = w.term →
    (ReadEnds img C p ↔ 512 / w.rate.toInt ≤ w.handled)

namespace Paced

variable {img : Image} {C C' : Clock}

lemma timed (h : Paced C) {p : ℤ} {w : Wait} (hw : C.waits p = some w) (hrate : 0 < w.rate.toInt) :
    Timed img C p w := by
  have hwait := h.waiting p w hw
  obtain ⟨c, hc⟩ := hwait.loop
  have hloop : C.machine.kernel.scheduledTerm = w.term → C.machine.kernel.ctl.point = .sys p c := by
    intro heq
    rwa [← heq, Kernel.context_self] at hc
  constructor
  · constructor
    · rintro ⟨c', hc'⟩
      exact (hwait.scheduled h.inv (by rw [hc']; rfl)).symm
    · exact fun heq => ⟨c, hloop heq⟩
  · intro heq
    have hcounter := hwait.counter hrate
    have hstep : Clock.step img (.other .finish) C = C.leaveLoop p := by
      rw [Clock.step_other, hloop heq]
      dsimp only
      rw [if_pos (by rw [hw]; rfl)]
    have hzero : C.machine.kernel.rtc.counter C.machine.kernel.scheduledTerm = 0 ↔
        512 / w.rate.toInt ≤ w.handled := by
      rw [heq, ← Int32.toInt_inj, hcounter, Int32.toInt_zero]
      omega
    rw [ReadEnds, hstep, ← hzero, Clock.leaveLoop]
    dsimp only
    constructor
    · rintro ⟨C', hC', -⟩
      by_contra hne
      rw [if_neg hne] at hC'
      exact absurd hC' (by simp)
    · intro h0
      rw [if_pos h0]
      exact ⟨_, rfl, Function.update_self .., rfl⟩

/-- **The run lemma.** -/
lemma of_reach {C₀ : Clock} (h₀ : Paced C₀)
    (h : Runs.Reach (Clock.step img) (ClockOrderly img) C₀ C) : Paced C :=
  h.invariant h₀ fun _ _ _ hC ho hs => hC.step ho hs

lemma boot (l : Layout) (pg : Paging) (vram : ℕ → ℕ → UInt8) (mem : ℤ → Pcb) :
    Paced (Clock.boot (bootMachine l pg vram mem)) :=
  ⟨inv_boot l pg vram mem, fun _ _ hw => absurd hw (by simp [Clock.boot])⟩

/-- From a state in which the kernel is not executing a shell of its own, ticks, interrupts of the
RTC and calls come in any order. -/
lemma of_rtc {C₀ : Clock} (h₀ : Paced C₀) (hsafe : ¬C₀.machine.kernel.Exposed)
    (h : Runs.Reach (Clock.step img) (fun e _ => e.OfRtc) C₀ C) : Paced C := by
  have hboth : Paced C ∧ ¬C.machine.kernel.Exposed :=
    h.invariant (P := fun C => Paced C ∧ ¬C.machine.kernel.Exposed) ⟨h₀, hsafe⟩
      fun _ _ _ hC he hs => ⟨hC.1.step (he.orderly img hC.2) hs, he.unexposed hC.1.inv hC.2 hs⟩
  exact hboth.1

end Paced

/-- **How long a read of the RTC waits.**  From every state that an orderly run has reached, with
any calls of the three terminals' processes, ticks and interrupts of the RTC after it: a read
that began at the rate `f` runs when its terminal is scheduled, and ends there exactly when at
least `512 / f` interrupts have been handled since it began. -/
theorem rtc_read_waits (img : Image) (l : Layout) (pg : Paging) (vram : ℕ → ℕ → UInt8)
    (mem : ℤ → Pcb) (C₀ C : Clock)
    (h₀ : Runs.Reach (Clock.step img) (ClockOrderly img) (Clock.boot (bootMachine l pg vram mem)) C₀)
    (hsafe : ¬C₀.machine.kernel.Exposed)
    (h : Runs.Reach (Clock.step img) (fun e _ => e.OfRtc) C₀ C) (p : ℤ) (w : Wait)
    (hw : C.waits p = some w) (hrate : 0 < w.rate.toInt) : Timed img C p w :=
  (((Paced.boot l pg vram mem).of_reach h₀).of_rtc hsafe h).timed hw hrate

/-- The four bytes of 512. -/
def rate512 : Buf := fun i => if i = 1 then 2 else 0

/-- The last shell opens the RTC, sets its rate to 512 and reads; two interrupts come while other
terminals have the processor. -/
def overshoot : List ClockEvent :=
  [.other (.call (.openFile rtcName)), .other (.call (.write 2 (some rate512) 4)),
    .other (.begin (.read 2 (some noBuf) 4)), .other .tick, .rtc, .other .tick, .rtc, .other .tick]

/-- After it the last shell is in its loop, on its terminal. -/
lemma overshoot_run : ∃ C₀ C w, Runs.Reach (Clock.step sampleImage) (ClockOrderly sampleImage)
      (Clock.boot sampleMachine) C₀ ∧ ¬C₀.machine.kernel.Exposed ∧
    Runs.Reach (Clock.step sampleImage) (fun e _ => e.OfRtc) C₀ C ∧
    C.machine.kernel.scheduledTerm = 2 ∧ C.waits 2 = some w ∧
    w.term = 2 ∧ w.rate = 512 ∧ w.handled = 2 := by
  have hrun : (Runs.run (Runs.guarded (Clock.step sampleImage) (ClockOrderly sampleImage))
      (bootShells.map .other) (Clock.boot sampleMachine)).any (fun C₀ =>
        ¬C₀.machine.kernel.Exposed ∧
        (Runs.run (Runs.guarded (Clock.step sampleImage) fun e _ => e.OfRtc) overshoot C₀).any
          (fun C => C.machine.kernel.scheduledTerm = 2 ∧
            (C.waits 2).any fun w => w.term = 2 ∧ w.rate = 512 ∧ w.handled = 2)) = true := by
    decide +kernel
  obtain ⟨C₀, hC₀, hprop⟩ := (Option.any_eq_true _ _).1 hrun
  obtain ⟨hsafe, hover⟩ := of_decide_eq_true hprop
  obtain ⟨C, hC, hprop⟩ := (Option.any_eq_true _ _).1 hover
  obtain ⟨hsched, hwaits⟩ := of_decide_eq_true hprop
  obtain ⟨w, hw, hprop⟩ := (Option.any_eq_true _ _).1 hwaits
  exact ⟨C₀, C, w, Runs.reach_of_guarded hC₀, hsafe, Runs.reach_of_guarded hC, hsched, hw,
    of_decide_eq_true hprop⟩

/-- It can return. -/
theorem rtc_read_waits_overshoot : ∃ C w, C.waits 2 = some w ∧ w.handled = 2 ∧
    Timed sampleImage C 2 w := by
  obtain ⟨C₀, C, w, h₀, hsafe, h, -, hw, -, hrate, hhandled⟩ := overshoot_run
  exact ⟨C, w, hw, hhandled, rtc_read_waits sampleImage sampleLayout samplePaging _ samplePcbs C₀ C
    h₀ hsafe h 2 w hw (by rw [hrate]; decide)⟩

/-- It returns after two interrupts, where the rate asks for one. -/
theorem rtc_read_overshoots : ¬∀ (img : Image) (l : Layout) (pg : Paging) (vram : ℕ → ℕ → UInt8)
    (mem : ℤ → Pcb) (C₀ C : Clock),
    Runs.Reach (Clock.step img) (ClockOrderly img) (Clock.boot (bootMachine l pg vram mem)) C₀ →
    ¬C₀.machine.kernel.Exposed → Runs.Reach (Clock.step img) (fun e _ => e.OfRtc) C₀ C →
    ∀ (p : ℤ) (w : Wait), C.waits p = some w → ReadEnds img C p →
      (w.handled : ℤ) = 512 / w.rate.toInt := by
  intro hall
  obtain ⟨C₀, C, w, h₀, hsafe, h, hsched, hw, hterm, hrate, hhandled⟩ := overshoot_run
  have hpaced := ((Paced.boot sampleLayout samplePaging _ samplePcbs).of_reach h₀).of_rtc hsafe h
  have htimed : Timed sampleImage C 2 w := hpaced.timed hw (by rw [hrate]; decide)
  have hends := (htimed.ends (hsched.trans hterm.symm)).2 (by rw [hrate, hhandled]; decide)
  have hexact := hall _ _ _ _ _ C₀ C h₀ hsafe h 2 w hw hends
  rw [hrate, hhandled] at hexact
  exact absurd hexact (by decide)

end WnajOS
