import WnajOS.RtcTiming

/-!
# The rate of the RTC belongs to the terminal

`rtc_open` and `rtc_write` set the rate of the scheduled terminal, not one of the process or of
its descriptor.  So a process finds its own rate at its next read as long as no other process
of its terminal sets a different one; the processes of the other terminals do not matter.
-/

namespace WnajOS

/-! ### The rate a process has set -/

/-- A process sets the rate of its terminal only if no other process there has set another. -/
def Undisturbing (img : Image) : ClockEvent → Clock → Prop
  | .rtc, _ => True
  | .other e, C =>
    let k := C.machine.kernel
    ∀ x ∈ setsRate? img e k, ∀ p ∈ C.machine.live k.scheduledTerm, p ≠ x.1 →
      C.own p = none ∨ C.own p = some x.2

instance (img : Image) (C : Clock) : DecidablePred fun e => Undisturbing img e C
  | .rtc => .isTrue trivial
  | .other e =>
    inferInstanceAs (Decidable (∀ x ∈ setsRate? img e C.machine.kernel,
      ∀ p ∈ C.machine.live C.machine.kernel.scheduledTerm, p ≠ x.1 →
        C.own p = none ∨ C.own p = some x.2))

/-- What a process that has set the rate `f` itself can rely on: a read begins to wait at this
rate, and it ends when its terminal is scheduled and `512 / f` interrupts have been handled. -/
structure OwnRate (img : Image) (C : Clock) (p : ℤ) (rate : Int32) : Prop where
  begins : ∀ c, C.machine.kernel.ctl.point = .user p → ReadsRtc C.machine.kernel c →
    ∃ C', Clock.step img (.other (.begin c)) C = some C' ∧
      C'.waits p = some ⟨C.machine.kernel.scheduledTerm, rate, 0⟩
  ends : ∀ w, C.waits p = some w → C.machine.kernel.scheduledTerm = w.term →
    (ReadEnds img C p ↔ 512 / rate.toInt ≤ w.handled)

/-- The rate of a terminal is the one that each of its processes has set, if it has set any. -/
structure RatesKept (C : Clock) : Prop where
  paced : Paced C
  rate : ∀ t, ∀ p ∈ C.machine.live t, ∀ f, C.own p = some f → C.machine.kernel.rtc.freq t = f
  wait : ∀ p w f, C.waits p = some w → C.own p = some f → w.rate = f

/-! ### Every step -/

/-- No process joins the live ones unless it is being entered. -/
lemma mem_of_liveAfter {e : Event} {k k' : Kernel} {live : Ledger} {t : ℕ} {p : ℤ}
    (h : p ∈ liveAfter e k k' live t) (hp : Clock.created? e k' ≠ some p) :
    p ∈ live t := by
  rw [liveAfter] at h
  rw [Clock.created?] at hp
  by_cases hstarts : e.starts
  · rw [if_pos hstarts] at h hp
    cases hc : k'.ctl.point.entering? with
    | some c =>
      rw [hc] at h hp
      by_cases ht : t = k.scheduledTerm
      · subst ht
        dsimp only at h
        rw [Function.update_self] at h
        rcases List.mem_cons.1 h with rfl | h
        · exact absurd rfl hp
        · exact h
      · dsimp only at h
        rwa [Function.update_of_ne ht] at h
    | none =>
      rw [hc] at h
      exact h
  · rw [if_neg hstarts] at h
    split at h
    · by_cases ht : t = k.scheduledTerm
      · subst ht
        rw [Function.update_self] at h
        exact List.mem_of_mem_erase h
      · rwa [Function.update_of_ne ht] at h
    · exact h

/-- Who sets a rate is the process of the scheduled terminal, by a call. -/
lemma setsRate?_eq_some {img : Image} {e : Event} {k : Kernel} {p : ℤ} {f : Int32}
    (h : setsRate? img e k = some (p, f)) :
    k.ctl.point.runs = some p ∧ ∃ c, e.call? k = some c := by
  rw [setsRate?] at h
  split at h
  · rename_i q c hq hc
    obtain ⟨rate, -, heq⟩ := Option.map_eq_some_iff.1 h
    obtain ⟨rfl, rfl⟩ := Prod.mk.inj heq
    exact ⟨hq, c, hc⟩
  · exact absurd h (by simp)

/-- A step that creates a process is no call on a descriptor. -/
lemma call?_of_created {e : Event} {k k' : Kernel} {i : ℤ} (h : Clock.created? e k' = some i) :
    e.call? k = none := by
  rw [Clock.created?] at h
  split at h
  · rename_i hstarts
    cases e <;> first | rfl | exact absurd hstarts (by simp [Event.starts])
  · exact absurd h (by simp)

/-- A process in the loop of `rtc_read` makes no other call. -/
lemma not_calling {img : Image} {C : Clock} {e : Event} {k' : Kernel} {p : ℤ} {w : Wait} {c : Call}
    (h : Paced C) (hw : C.waits p = some w) (hp : C.machine.kernel.ctl.point.runs = some p)
    (hc : e.call? C.machine.kernel = some c)
    (hfinish : e = .finish → ∀ p c, C.machine.kernel.ctl.point = .sys p c → C.waits p = none)
    (hs : step img e C.machine.kernel = some k') : False := by
  have hwait := h.waiting p w hw
  have hterm := hwait.scheduled h.inv (Point.proc_of_runs hp)
  obtain ⟨c', hloop⟩ := hwait.loop
  rw [hterm, Kernel.context_self] at hloop
  cases step_cases hs with
  | call hpt => exact absurd (hloop.symm.trans hpt) (by simp)
  | finish =>
    have hnone := hfinish rfl p c' hloop
    rw [hw] at hnone
    exact absurd hnone (by simp)
  | _ => exact absurd hc (by simp [Event.call?])

namespace RatesKept

variable {img : Image} {C C' : Clock}

/-- No rate changes, and whoever has set one then had set it before and was alive. -/
lemma of_same (h : RatesKept C) (hpaced : Paced C')
    (hfreq : C'.machine.kernel.rtc.freq = C.machine.kernel.rtc.freq)
    (hlive : ∀ t p f, C'.own p = some f → p ∈ C'.machine.live t → p ∈ C.machine.live t)
    (hown : ∀ p f, C'.own p = some f → C.own p = some f)
    (hwaits : ∀ p w, C'.waits p = some w → C.waits p = some w) : RatesKept C' where
  paced := hpaced
  rate t p hp f hf := by
    rw [hfreq]
    exact h.rate t p (hlive t p f hf hp) f (hown p f hf)
  wait p w f hw hf := h.wait p w f (hwaits p w hw) (hown p f hf)

/-- The process `q` of the scheduled terminal sets the rate `g`, and the others there have set
no other. -/
lemma of_set (h : RatesKept C) (hpaced : Paced C') {q : ℤ} {g : Int32}
    (hq : q ∈ C.machine.live C.machine.kernel.scheduledTerm)
    (hothers : ∀ p ∈ C.machine.live C.machine.kernel.scheduledTerm, p ≠ q →
      C.own p = none ∨ C.own p = some g)
    (hfreq : C'.machine.kernel.rtc.freq
      = Function.update C.machine.kernel.rtc.freq C.machine.kernel.scheduledTerm g)
    (hlive : ∀ t p, p ∈ C'.machine.live t → p ∈ C.machine.live t)
    (hown : C'.own = Function.update C.own q (some g))
    (hwaits : ∀ p w, C'.waits p = some w → p ≠ q ∧ C.waits p = some w) : RatesKept C' := by
  refine ⟨hpaced, ?_, ?_⟩
  · intro t p hp f hf
    have hp := hlive t p hp
    rw [hown] at hf
    rw [hfreq]
    by_cases ht : t = C.machine.kernel.scheduledTerm
    · subst ht
      rw [Function.update_self]
      by_cases hpq : p = q
      · rw [hpq, Function.update_self] at hf
        exact Option.some.inj hf
      · rw [Function.update_of_ne hpq] at hf
        rcases hothers p hp hpq with hnone | hsome
        · rw [hnone] at hf
          exact absurd hf (by simp)
        · exact Option.some.inj (hsome.symm.trans hf)
    · have hpq : p ≠ q := by
        rintro rfl
        exact h.paced.inv.disjoint _ _ ht p hp hq
      rw [Function.update_of_ne hpq] at hf
      rw [Function.update_of_ne ht]
      exact h.rate t p hp f hf
  · intro p w f hw hf
    obtain ⟨hpq, hw⟩ := hwaits p w hw
    rw [hown, Function.update_of_ne hpq] at hf
    exact h.wait p w f hw hf

lemma interrupt (h : RatesKept C) : RatesKept C.interrupt := by
  refine ⟨h.paced.interrupt, ?_, ?_⟩
  · intro t p hp f hf
    exact (congrFun (Rtc.handlerFrom_freq _ _ _) t).trans (h.rate t p hp f hf)
  · intro p w f hw hf
    obtain ⟨w₀, hw₀, rfl⟩ := Option.map_eq_some_iff.1 hw
    exact h.wait p w₀ f hw₀ hf

lemma enterLoop (h : RatesKept C) {p : ℤ} {c : Call} (hp : C.machine.kernel.ctl.point = .user p)
    (hs : C.enterLoop p c = some C') : RatesKept C' := by
  have hpaced := h.paced.enterLoop hp hs
  obtain ⟨r, hr, rfl⟩ := Option.map_eq_some_iff.1 hs
  obtain ⟨-, rfl⟩ := Rtc.rtcRead_eq_some hr
  refine ⟨hpaced, h.rate, ?_⟩
  intro q w f hw hf
  dsimp only at hw hf
  by_cases hq : q = p
  · subst hq
    rw [Function.update_self] at hw
    obtain rfl := Option.some.inj hw
    obtain ⟨l, hlive, -⟩ := h.paced.inv.proc (p := q) (by rw [hp]; rfl)
    exact h.rate _ q (hlive ▸ List.mem_cons_self ..) f hf
  · rw [Function.update_of_ne hq] at hw
    exact h.wait q w f hw hf

lemma leaveLoop (h : RatesKept C) {p : ℤ} {c : Call} (hp : C.machine.kernel.ctl.point = .sys p c)
    (hs : C.leaveLoop p = some C') : RatesKept C' := by
  have hpaced := h.paced.leaveLoop hp hs
  obtain ⟨-, rfl⟩ := Clock.leaveLoop_eq_some hs
  refine h.of_same hpaced rfl (fun _ _ _ _ hp => hp) (fun _ _ hf => hf) fun q w hw => ?_
  dsimp only at hw
  by_cases hq : q = p
  · rw [hq, Function.update_self] at hw
    exact absurd hw (by simp)
  · rwa [Function.update_of_ne hq] at hw

lemma otherStep (h : RatesKept C) {e : Event} (ho : Orderly img e C.machine.kernel)
    (hu : Undisturbing img (.other e) C)
    (hfinish : e = .finish → ∀ p c, C.machine.kernel.ctl.point = .sys p c → C.waits p = none)
    (hs : C.otherStep img e = some C') : RatesKept C' := by
  have hpaced := h.paced.otherStep ho hfinish hs
  obtain ⟨m, hm, rfl⟩ := Option.map_eq_some_iff.1 hs
  obtain ⟨k', hk', rfl⟩ := Option.map_eq_some_iff.1 hm
  have hfreq := (step_rtc hk').freq
  have hown := Clock.settle_own img e ⟨k', liveAfter e C.machine.kernel k' C.machine.live⟩ C
  have hmachine := Clock.settle_machine img e ⟨k', liveAfter e C.machine.kernel k' C.machine.live⟩ C
  have hmem : ∀ {t p}, p ∈ liveAfter e C.machine.kernel k' C.machine.live t →
      Clock.created? e k' ≠ some p → p ∈ C.machine.live t := mem_of_liveAfter
  have hwaits : ∀ p w, (C.settle img e ⟨k', liveAfter e C.machine.kernel k' C.machine.live⟩).waits p
      = some w → C.waits p = some w := fun p w hw => (waits_settle hw).1
  dsimp only at hown
  clear hs
  generalize C.settle img e ⟨k', liveAfter e C.machine.kernel k' C.machine.live⟩ = C'
    at hpaced hown hmachine hwaits ⊢
  cases hcreated : Clock.created? e k' with
  | some i =>
    -- a new process has set no rate
    have hset : setsRate? img e C.machine.kernel = none :=
      setsRate?_eq_none (call?_of_created hcreated)
    rw [hcreated, hset] at hown
    rw [hset] at hfreq
    have hold : ∀ p f, C'.own p = some f → p ≠ i ∧ C.own p = some f := by
      intro p f hf
      rw [hown] at hf
      dsimp only at hf
      by_cases hp : p = i
      · rw [hp, Function.update_self] at hf
        exact absurd hf (by simp)
      · rw [Function.update_of_ne hp] at hf
        exact ⟨hp, hf⟩
    refine h.of_same hpaced (by rw [hmachine]; exact hfreq) (fun t p f hf hp => ?_)
      (fun p f hf => (hold p f hf).2) hwaits
    rw [hmachine] at hp
    exact hmem hp (by rw [hcreated]; simpa using (hold p f hf).1.symm)
  | none =>
    have hlive : ∀ t p, p ∈ C'.machine.live t → p ∈ C.machine.live t := by
      intro t p hp
      rw [hmachine] at hp
      exact hmem hp (by rw [hcreated]; simp)
    rw [hcreated] at hown
    cases hset : setsRate? img e C.machine.kernel with
    | none =>
      rw [hset] at hown hfreq
      refine h.of_same hpaced (by rw [hmachine]; exact hfreq) (fun t p _ _ => hlive t p) ?_ hwaits
      intro p f hf
      rwa [hown] at hf
    | some x =>
      obtain ⟨q, g⟩ := x
      rw [hset] at hown hfreq
      obtain ⟨hq, c, hc⟩ := setsRate?_eq_some hset
      obtain ⟨l, htop, -⟩ := h.paced.inv.proc (Point.proc_of_runs hq)
      refine h.of_set hpaced (htop ▸ List.mem_cons_self ..) (fun p hp => hu (q, g) hset p hp)
        (by rw [hmachine]; exact hfreq) hlive hown fun p w hw => ⟨?_, hwaits p w hw⟩
      -- a process in the loop of `rtc_read` sets no rate
      rintro rfl
      exact not_calling h.paced (hwaits _ w hw) hq hc hfinish hk'

/-- **The step lemma.** -/
lemma step (h : RatesKept C) {e : ClockEvent} (ho : ClockOrderly img e C)
    (hu : Undisturbing img e C) (hs : Clock.step img e C = some C') : RatesKept C' := by
  cases Clock.step_cases hs with
  | interrupt => exact h.interrupt
  | enterLoop hp hs => exact h.enterLoop hp hs
  | leaveLoop hp hs => exact h.leaveLoop hp hs
  | otherStep hfinish hs => exact h.otherStep ho hu hfinish hs

lemma boot (l : Layout) (pg : Paging) (vram : ℕ → ℕ → UInt8) (mem : ℤ → Pcb) :
    RatesKept (Clock.boot (bootMachine l pg vram mem)) :=
  ⟨Paced.boot l pg vram mem, fun _ _ hp => absurd hp List.not_mem_nil,
    fun _ _ _ hw => absurd hw (by simp [Clock.boot])⟩

/-- A process that runs finds its own rate at its terminal. -/
lemma ownRate (h : RatesKept C) {p : ℤ} {f : Int32} (hf : C.own p = some f)
    (hpos : 0 < f.toInt) : OwnRate img C p f := by
  constructor
  · intro c hp hc
    obtain ⟨l, hlive, -⟩ := h.paced.inv.proc (p := p) (by rw [hp]; rfl)
    have hrate := h.rate _ p (hlive ▸ List.mem_cons_self ..) f hf
    have hne : f ≠ 0 := by
      rintro rfl
      exact absurd hpos (by decide)
    have hread : C.machine.kernel.rtc.rtcRead C.machine.kernel.scheduledTerm = some _ :=
      if_neg (by rw [hrate]; exact hne)
    have hstep : Clock.step img (.other (.begin c)) C = C.enterLoop p c := by
      rw [Clock.step_other, hp]
      exact if_pos hc
    rw [hstep, Clock.enterLoop, hread]
    refine ⟨_, rfl, ?_⟩
    dsimp only
    rw [Function.update_self, hrate]
  · intro w hw hterm
    have hrate := h.wait p w f hw hf
    have htimed : Timed img C p w := h.paced.timed hw (by rw [hrate]; exact hpos)
    rw [← hrate]
    exact htimed.ends hterm

end RatesKept

/-- **A process keeps its own rate**, in every run in which no process sets the rate of its
terminal to another value than a live process there has set. -/
theorem rate_kept (img : Image) (l : Layout) (pg : Paging) (vram : ℕ → ℕ → UInt8)
    (mem : ℤ → Pcb) (C : Clock)
    (h : Runs.Reach (Clock.step img) (fun e C => ClockOrderly img e C ∧ Undisturbing img e C)
      (Clock.boot (bootMachine l pg vram mem)) C) (p : ℤ) (f : Int32) (hf : C.own p = some f)
    (hpos : 0 < f.toInt) : OwnRate img C p f :=
  (h.invariant (P := RatesKept) (RatesKept.boot l pg vram mem)
    fun _ _ _ hC hok hs => hC.step hok.1 hok.2 hs).ownRate hf hpos

/-- The last shell sets the rate 512. -/
def setOwn : List ClockEvent :=
  bootShells.map .other ++ ([.other (.call (.openFile rtcName)),
    .other (.call (.write 2 (some rate512) 4))] : List ClockEvent)

/-- Meanwhile the first shell opens the RTC. -/
def openElsewhere : List ClockEvent :=
  setOwn ++ ([.other .tick, .other (.call (.openFile rtcName)), .other .tick, .other .tick,
    .other (.begin (.read 2 (some noBuf) 4)), .rtc] : List ClockEvent)

/-- A program that the last shell executes opens the RTC and halts; then the shell reads. -/
def openInChild : List ClockEvent :=
  setOwn ++ ([.other (.execute shellName noBuf), .other .enter, .other (.call (.openFile rtcName)),
    .other .halt, .other (.begin (.read 2 (some noBuf) 4)), .rtc] : List ClockEvent)

/-- The processes of the other terminals do not matter. -/
theorem rate_kept_elsewhere : ∃ C, C.waits 2 = some ⟨2, 512, 1⟩ ∧ OwnRate sampleImage C 2 512 := by
  have hrun : (Runs.run (Runs.guarded (Clock.step sampleImage)
      fun e C => ClockOrderly sampleImage e C ∧ Undisturbing sampleImage e C) openElsewhere
      (Clock.boot sampleMachine)).any (fun C => C.waits 2 = some ⟨2, 512, 1⟩ ∧ C.own 2 = some 512)
      = true := by
    decide +kernel
  obtain ⟨C, hC, hprop⟩ := (Option.any_eq_true _ _).1 hrun
  obtain ⟨hw, hf⟩ := of_decide_eq_true hprop
  exact ⟨C, hw, rate_kept sampleImage sampleLayout samplePaging _ samplePcbs C
    (Runs.reach_of_guarded hC) 2 512 hf (by decide)⟩

/-- The rate that the program set is the one the shell finds: its read does not end with the
interrupt that its own rate asks for. -/
theorem rate_lost : ¬∀ (img : Image) (l : Layout) (pg : Paging) (vram : ℕ → ℕ → UInt8)
    (mem : ℤ → Pcb) (C : Clock),
    Runs.Reach (Clock.step img) (fun _ _ => True) (Clock.boot (bootMachine l pg vram mem)) C →
    ∀ (p : ℤ) (f : Int32), C.own p = some f → 2 ≤ f.toInt → f.toInt ≤ 512 → OwnRate img C p f := by
  intro hall
  have hrun : (Runs.run (Runs.guarded (Clock.step sampleImage) (ClockOrderly sampleImage))
      openInChild (Clock.boot sampleMachine)).any (fun C => C.waits 2 = some ⟨2, 2, 1⟩ ∧
        C.own 2 = some 512 ∧ C.machine.kernel.scheduledTerm = 2) = true := by
    decide +kernel
  obtain ⟨C, hC, hprop⟩ := (Option.any_eq_true _ _).1 hrun
  obtain ⟨hw, hf, hsched⟩ := of_decide_eq_true hprop
  have hreach := Runs.reach_of_guarded hC
  have hpaced : Paced C := (Paced.boot sampleLayout samplePaging _ samplePcbs).of_reach hreach
  have htimed : Timed sampleImage C 2 _ := hpaced.timed hw (by decide)
  have hown := hall _ _ _ _ _ C (hreach.mono fun _ _ _ => trivial) 2 512 hf (by decide) (by decide)
  have hends := (hown.ends _ hw hsched).2 (by decide)
  exact absurd ((htimed.ends hsched).1 hends) (by decide)

end WnajOS
