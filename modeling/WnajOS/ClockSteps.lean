import WnajOS.Clock

/-!
# What a step does to the RTC

Only a call of a program reaches the arrays of the RTC driver, and only at the index of the
scheduled terminal.  With this, and with what an orderly step leaves alone on the other
terminals, the reads in the loop of `rtc_read` can be followed through every run.
-/

namespace WnajOS

/-! ### The effect of a call -/

/-- What a call does to the RTC: it sets the rate of the scheduled terminal or none, and no
counter of another terminal. -/
structure RtcEffect (img : Image) (c : Call) (k : Kernel) (r : Rtc) : Prop where
  counter : ∀ t, t ≠ k.scheduledTerm → r.counter t = k.rtc.counter t
  freq : r.freq = match rateSet? img k c with
    | some rate => Function.update k.rtc.freq k.scheduledTerm rate
    | none => k.rtc.freq

section Calls

variable (img : Image) (k : Kernel)

lemma RtcEffect.refl {c : Call} (h : rateSet? img k c = none) : RtcEffect img c k k.rtc :=
  ⟨fun _ _ => rfl, by rw [h]⟩

lemma complain_rtc (fileType : UInt32) :
    Ends (fun k' => k'.rtc = k.rtc ∧ k'.scheduledTerm = k.scheduledTerm) (k.complain fileType) := by
  have hd := (Display.clear_drawn k.toDisplay).draws
    (Display.puts_draws (strangeText fileType) k.toDisplay.clear)
  rw [Kernel.complain]
  split
  · rename_i d hp
    rw [hp] at hd
    exact ⟨rfl, hd.scheduledTerm⟩
  · rename_i d hp
    rw [hp] at hd
    exact ⟨rfl, hd.scheduledTerm⟩

/-- The RTC after a fallible step of a call: `after` if it goes on, `before` if it faults. -/
def LeavesRtc (before after : Rtc) : Except Kernel Kernel → Prop
  | .ok k => k.rtc = after
  | .error k => k.rtc = before

/-- The RTC after the driver's `open`. -/
def opened (driver : Option Driver) : Rtc :=
  if driver = some .rtc then k.rtc.rtcOpen k.scheduledTerm else k.rtc

lemma driverOpen_rtc (driver : Option Driver) :
    LeavesRtc k.rtc (opened k driver) (driverOpen k driver) := by
  cases driver with
  | none => rfl
  | some driver => cases driver <;> rfl

lemma openAt_rtc (fdIdx : ℕ) (d : DirEntry) : LeavesRtc k.rtc
    (opened k (newEntry (k.pcb.fdArr fdIdx) d).fileOps) (openAt k fdIdx d) := by
  let e := newEntry (k.pcb.fdArr fdIdx) d
  let k₁ := k.setFds (Function.update k.pcb.fdArr fdIdx e)
  rw [openAt]
  dsimp only
  split
  · have hc := complain_rtc k₁ d.fileType
    cases hk : k₁.complain d.fileType with
    | error k₂ =>
      rw [hk] at hc
      exact hc.1
    | ok k₂ =>
      rw [hk] at hc
      have hopen := driverOpen_rtc k₂ e.fileOps
      rw [opened, hc.1, hc.2] at hopen
      exact hopen
  · exact driverOpen_rtc k₁ e.fileOps

lemma syscallOpen_rtc (filename : Str) :
    (syscallOpen img k filename).Leads (fun x => x.2)
      fun k' => RtcEffect img (.openFile filename) k k'.rtc := by
  rw [syscallOpen]
  cases hd : readDentryByName img filename with
  | none => exact RtcEffect.refl img k (by simp only [rateSet?, hd])
  | some d =>
    cases hm : vacantFrom k.pcb.fdArr 7 0 with
    | none => exact RtcEffect.refl img k (by simp only [rateSet?, hd, hm])
    | some fdIdx =>
      have hopen := openAt_rtc k fdIdx d
      dsimp only
      cases hat : openAt k fdIdx d with
      | error k₁ =>
        rw [hat] at hopen
        have hrtc : k₁.rtc = k.rtc := hopen
        dsimp only [Outcome.Leads]
        rw [hrtc]
        exact RtcEffect.refl img k (by simp only [rateSet?, hd, hm, hat])
      | ok k₁ =>
        rw [hat] at hopen
        have hrtc : k₁.rtc = opened k (newEntry (k.pcb.fdArr fdIdx) d).fileOps := hopen
        dsimp only [Outcome.Leads]
        rw [hrtc, opened]
        by_cases hops : (newEntry (k.pcb.fdArr fdIdx) d).fileOps = some .rtc
        · have hrate : rateSet? img k (.openFile filename) = some 2 := by
            simp only [rateSet?, hd, hm, hat, if_pos hops]
          rw [if_pos hops]
          exact ⟨fun _ _ => rfl, by rw [hrate]; rfl⟩
        · rw [if_neg hops]
          exact RtcEffect.refl img k (by simp only [rateSet?, hd, hm, hat, if_neg hops])

lemma syscallClose_rtc (fd : Int32) :
    (syscallClose k fd).Leads (fun x => x.2) fun k' => RtcEffect img (.close fd) k k'.rtc := by
  rw [syscallClose]
  split
  · exact RtcEffect.refl img k rfl
  · dsimp only
    split
    · exact RtcEffect.refl img k rfl
    · exact RtcEffect.refl img k rfl

lemma driverRead_rtc (fd : Int32) (buf : Buf) (nbytes : Int32) :
    (driverRead img k fd buf nbytes).Leads (fun x => x.2.2)
      fun k' => RtcEffect img (.read fd (some buf) nbytes) k k'.rtc := by
  have hrefl : RtcEffect img (.read fd (some buf) nbytes) k k.rtc := RtcEffect.refl img k rfl
  rw [driverRead]
  split
  · exact hrefl
  · dsimp only
    split
    · exact hrefl
    · trivial
  · exact hrefl
  · exact hrefl
  · exact hrefl
  · split
    · exact hrefl
    · rename_i r hr
      rw [Rtc.rtcRead] at hr
      split at hr
      · exact absurd hr (by simp)
      · obtain rfl := Option.some.inj hr
        refine ⟨fun t ht => ?_, rfl⟩
        exact (Function.update_of_ne ht _ _).trans (Function.update_of_ne ht _ _)

lemma syscallRead_rtc (fd : Int32) (buf : Option Buf) (nbytes : Int32) :
    (syscallRead img k fd buf nbytes).Leads (fun x => x.2.2)
      fun k' => RtcEffect img (.read fd buf nbytes) k k'.rtc := by
  have hrefl : RtcEffect img (.read fd buf nbytes) k k.rtc := RtcEffect.refl img k rfl
  cases buf with
  | none => exact hrefl
  | some buf =>
    rw [syscallRead.eq_def]
    dsimp only
    split
    · exact hrefl
    · have heff := driverRead_rtc img k fd buf nbytes
      cases hdr : driverRead img k fd buf nbytes with
      | waits => trivial
      | done x =>
        rw [hdr] at heff
        exact heff
      | fault k₁ =>
        rw [hdr] at heff
        exact heff

lemma driverWrite_rtc (fd : Int32) (buf : Buf) (nbytes : Int32)
    (hok : ¬(fd < 0 ∨ fd ≥ 8 ∨ nbytes < 0 ∨ (k.pcb.fdArr (fdIndex fd)).flags = 0)) :
    (driverWrite k fd buf nbytes).Leads (fun x => x.2)
      fun k' => RtcEffect img (.write fd (some buf) nbytes) k k'.rtc := by
  have hrefl : ∀ ops, (k.pcb.fdArr (fdIndex fd)).fileOps = ops → ops ≠ some .rtc →
      RtcEffect img (.write fd (some buf) nbytes) k k.rtc :=
    fun ops hops hne => RtcEffect.refl img k (if_neg fun h => hne (hops.symm.trans h.2.1))
  rw [driverWrite]
  cases hops : (k.pcb.fdArr (fdIndex fd)).fileOps with
  | none => exact hrefl _ hops (by simp)
  | some driver =>
    cases driver with
    | stdin => exact hrefl _ hops (by simp)
    | dir => exact hrefl _ hops (by simp)
    | file => exact hrefl _ hops (by simp)
    | stdout =>
      dsimp only
      split
      · exact hrefl _ hops (by simp)
      · exact hrefl _ hops (by simp)
    | rtc =>
      dsimp only [Outcome.Leads]
      rw [Rtc.rtcWrite]
      by_cases hpow : Rtc.word buf &&& (Rtc.word buf - 1) = 0
      · have hrate : rateSet? img k (.write fd (some buf) nbytes) = some (Rtc.word buf) :=
          if_pos ⟨hok, hops, hpow⟩
        rw [if_neg (not_not.2 hpow)]
        exact ⟨fun _ _ => rfl, by rw [hrate]⟩
      · rw [if_pos hpow]
        exact RtcEffect.refl img k (if_neg fun h => hpow h.2.2)

lemma syscallWrite_rtc (fd : Int32) (buf : Option Buf) (nbytes : Int32) :
    (syscallWrite k fd buf nbytes).Leads (fun x => x.2)
      fun k' => RtcEffect img (.write fd buf nbytes) k k'.rtc := by
  cases buf with
  | none => exact RtcEffect.refl img k rfl
  | some buf =>
    rw [syscallWrite.eq_def]
    dsimp only
    split
    · rename_i hbad
      exact RtcEffect.refl img k (if_neg fun h => h.1 hbad)
    · rename_i hok
      exact driverWrite_rtc img k fd buf nbytes hok

/-- **What a call does to the RTC**, whether it returns or faults. -/
theorem call_rtc (c : Call) :
    (k.call img c).Leads (fun x => x.2) fun k' => RtcEffect img c k k'.rtc := by
  cases c with
  | openFile filename => exact syscallOpen_rtc img k filename
  | close fd => exact syscallClose_rtc img k fd
  | read fd buf nbytes =>
    have h := syscallRead_rtc img k fd buf nbytes
    rw [Kernel.call]
    cases hr : syscallRead img k fd buf nbytes with
    | waits => trivial
    | done x =>
      rw [hr] at h
      exact h
    | fault k₁ =>
      rw [hr] at h
      exact h
  | write fd buf nbytes => exact syscallWrite_rtc img k fd buf nbytes

end Calls

/-! ### The effect of a step -/

/-- What a step does to the RTC. -/
structure StepRtc (img : Image) (e : Event) (k k' : Kernel) : Prop where
  counter : ∀ t, t ≠ k.scheduledTerm → k'.rtc.counter t = k.rtc.counter t
  freq : k'.rtc.freq = match setsRate? img e k with
    | some (_, rate) => Function.update k.rtc.freq k.scheduledTerm rate
    | none => k.rtc.freq

section Steps

variable {img : Image} {e : Event} {k k' : Kernel}

lemma StepRtc.of_eq (he : setsRate? img e k = none) (h : k'.rtc = k.rtc) : StepRtc img e k k' :=
  ⟨fun _ _ => by rw [h], by rw [he, h]⟩

/-- Only a call can set a rate. -/
lemma setsRate?_eq_none (h : e.call? k = none) : setsRate? img e k = none := by
  rw [setsRate?, h]
  split <;> simp_all

lemma endCall_rtc {p : ℤ} {c : Call} (he : e.call? k = some c) (hp : k.ctl.point.runs = some p)
    (hs : endCall p c k (k.call img c) = some k') : StepRtc img e k k' := by
  have heff := call_rtc img k c
  have hset : setsRate? img e k = (rateSet? img k c).map fun rate => (p, rate) := by
    rw [setsRate?, hp, he]
  have hfreq : ∀ r : Rtc, RtcEffect img c k r → r.freq = match setsRate? img e k with
      | some (_, rate) => Function.update k.rtc.freq k.scheduledTerm rate
      | none => k.rtc.freq := by
    intro r hr
    rw [hset, hr.freq]
    cases rateSet? img k c <;> rfl
  cases ho : k.call img c with
  | waits =>
    rw [ho] at hs
    exact absurd hs (by simp [endCall])
  | done x =>
    rw [ho] at hs heff
    obtain rfl := Option.some.inj hs
    exact ⟨RtcEffect.counter heff, hfreq _ heff⟩
  | fault k₁ =>
    rw [ho] at hs heff
    obtain rfl := Option.some.inj hs
    exact ⟨RtcEffect.counter heff, hfreq _ heff⟩

lemma pitHandler_rtc (k : Kernel) : k.pitHandler.rtc = k.rtc := by
  have hsave : k.saveContext.rtc = k.rtc := by
    rw [Kernel.saveContext]
    split
    · rfl
    · rfl
  rw [Kernel.pitHandler, Kernel.switchContext]
  dsimp only
  split
  · exact hsave
  · exact hsave

lemma syscallHalt_rtc (k : Kernel) : k.syscallHalt.rtc = k.rtc := by
  rw [Kernel.syscallHalt]
  dsimp only
  split
  · rfl
  · exact haltFinish_rtc _

lemma start_rtc (he : e.starts = true) (hs : step img e k = some k') : k'.rtc = k.rtc := by
  obtain ⟨caller, command, buf, hstart⟩ := starts_of_step he hs
  obtain ⟨failed, fault, hstep, -, hrtc⟩ := @Starts.step img _ _ _ _ _ hstart
  have hex := executed img k caller command buf
  rw [hstep, startStep] at hs
  generalize syscallExecute img k caller command buf = r at hs hex
  cases hex with
  | fails =>
    obtain rfl := Option.some.inj hs
    exact hrtc
  | starts =>
    obtain rfl := Option.some.inj hs
    rfl
  | faults =>
    obtain rfl := Option.some.inj hs
    rfl

/-- **What a step does to the RTC.** -/
theorem step_rtc (hs : step img e k = some k') : StepRtc img e k k' := by
  cases step_cases hs with
  | tick => exact .of_eq (setsRate?_eq_none rfl) (pitHandler_rtc k)
  | key _ hs =>
    obtain ⟨d, ⟨-, rfl⟩ | ⟨-, p, -, rfl⟩⟩ := keyStep_eq_some hs
    · exact .of_eq (setsRate?_eq_none rfl) rfl
    · exact .of_eq (setsRate?_eq_none rfl) rfl
  | execute => exact .of_eq (setsRate?_eq_none rfl) (start_rtc rfl hs)
  | bootExec => exact .of_eq (setsRate?_eq_none rfl) (start_rtc rfl hs)
  | restartExec => exact .of_eq (setsRate?_eq_none rfl) (start_rtc rfl hs)
  | enter => exact .of_eq (setsRate?_eq_none rfl) rfl
  | call hpt _ hs => exact endCall_rtc rfl (by rw [hpt]; rfl) hs
  | @begin p c =>
    refine .of_eq (setsRate?_eq_none rfl) ?_
    cases c <;> rfl
  | @finish p c _ hpt hs =>
    exact endCall_rtc (p := p) (c := c) (by simp [Event.call?, hpt]) (by rw [hpt]; rfl) hs
  | raise hs =>
    obtain ⟨p, -, rfl⟩ := raiseStep_eq_some hs
    exact .of_eq (setsRate?_eq_none rfl) rfl
  | @report p x n =>
    obtain ⟨d, ⟨-, heq⟩ | ⟨-, heq⟩⟩ := reportStep_cases p x n k
    · exact .of_eq (setsRate?_eq_none rfl) (by rw [heq])
    · exact .of_eq (setsRate?_eq_none rfl) (by rw [heq])
  | halt => exact .of_eq (setsRate?_eq_none rfl) (syscallHalt_rtc k)
  | raisedHalt => exact .of_eq (setsRate?_eq_none rfl) (syscallHalt_rtc k)

end Steps

/-! ### The other terminals -/

/-- What a step of one terminal leaves alone on the terminal `t`. -/
structure Elsewhere (m m' : Machine) (t : ℕ) : Prop where
  scheduledTerm : m'.kernel.scheduledTerm = m.kernel.scheduledTerm
  pid : (m'.kernel.terms t).pid = (m.kernel.terms t).pid
  live : m'.live t = m.live t
  context : m'.kernel.context t = m.kernel.context t

lemma Elsewhere.of_pcb {m m' : Machine} {t : ℕ} (ht : t ≠ m.kernel.scheduledTerm)
    (hsched : m'.kernel.scheduledTerm = m.kernel.scheduledTerm)
    (hpid : (m'.kernel.terms t).pid = (m.kernel.terms t).pid) (hlive : m'.live t = m.live t)
    (hpcb : (m'.kernel.pcbOf (m.kernel.terms t).pid).scheduled
      = (m.kernel.pcbOf (m.kernel.terms t).pid).scheduled) : Elsewhere m m' t := by
  refine ⟨hsched, hpid, hlive, ?_⟩
  rw [Kernel.context_of_ne _ ht, Kernel.context_of_ne _ (hsched ▸ ht), hpid, hpcb]

/-- **The frame of a step.**  An orderly step other than a tick concerns the scheduled terminal
only: what the other terminals run stays where it is. -/
theorem Inv.elsewhere {img : Image} {e : Event} {m m' : Machine} (h : Inv m.kernel m.live)
    (ho : Orderly img e m.kernel) (hs : m.step img e = some m') (he : e.isTick = false) {t : ℕ}
    (ht : t ≠ m.kernel.scheduledTerm) : Elsewhere m m' t := by
  have heff := step_effect hs
  obtain ⟨k, live⟩ := m
  obtain ⟨k', live'⟩ := m'
  dsimp only at h ho heff ht ⊢
  have hother : ∀ l, Function.update live k.scheduledTerm l t = live t :=
    fun l => Function.update_of_ne ht _ _
  have hsame : ∀ {k' : Kernel}, SameProcs k k' → Elsewhere ⟨k, live⟩ ⟨k', live⟩ t := by
    intro k' hk'
    obtain ⟨fds, hpcb⟩ := hk'.pcbOf (k.terms t).pid
    exact .of_pcb ht hk'.scheduledTerm (hk'.termPid t) rfl (by dsimp only; rw [hpcb])
  cases heff with
  | same hk' _ _ => exact hsame hk'
  | called _ _ hk' _ _ _ => exact hsame hk'
  | tick htick _ =>
    rw [htick] at he
    exact absurd he (by decide)
  | @created caller command buf d i hstart hd hi hfits hc =>
    have hpid : (k.terms t).pid ≠ i :=
      h.reuse_ne (ho.noReuse (by rw [hstart.program, hd]; rfl) i hi) ht
    refine .of_pcb ht hc.scheduledTerm ?_ (hother _) ?_
    · dsimp only
      rw [hc.termPid, if_neg ht]
    · dsimp only
      rw [hc.pcbOf, if_neg hpid]
  | faulted _ _ _ _ hk' =>
    obtain ⟨c, rfl, -⟩ := hk'
    exact .of_pcb ht rfl rfl rfl rfl
  | failed hstart hc hd =>
    obtain ⟨⟨d', hd', -⟩, hslot⟩ := ho.shellStarts (hstart.isOwn hc)
    rcases hd with hnone | hnone
    · rw [hstart.program, hnone] at hd'
      exact absurd hd' (by simp)
    · rw [hnone] at hslot
      exact absurd hslot (by simp)
  | halted _ hp hk' =>
    subst hk'
    obtain ⟨l, hlive, hcur⟩ := h.proc hp
    have hne : (k.terms t).pid ≠ k.cur :=
      h.pid_ne (hcur ▸ hlive ▸ List.mem_cons_self ..) ht
    rcases syscallHalt_cases k with ⟨-, heq⟩ | ⟨-, hfin⟩
    · refine .of_pcb ht (by rw [heq]) (by rw [heq]) (hother _) (by rw [heq]; rfl)
    · obtain ⟨fds, hpcb⟩ := hfin.pcbOf
      refine .of_pcb ht hfin.scheduledTerm ?_ (hother _) ?_
      · dsimp only
        rw [hfin.termPid, if_neg ht]
      · dsimp only
        rw [hpcb, if_neg hne]

end WnajOS
