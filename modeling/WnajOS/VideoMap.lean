import WnajOS.Screens

/-!
# The mapping of video memory follows the scheduled terminal

`VideoFollows` says how the page tables stand in a run in which no switch of the terminal
concerns the scheduled one.  It gives the page that every store of a process goes to, as long
as the console position lies in the page of video memory.
-/

namespace WnajOS

/-! ### Conditions on a step -/

/-- The terminal that the event makes visible. -/
def OutEvent.switch? : OutEvent → Option ℕ
  | .switch t => some t
  | _ => none

/-- The page in which `pan` has bytes left to move. -/
def Phase.panning? : Phase → Option ℕ
  | .move mem _ => some mem
  | .blank mem _ => some mem
  | _ => none

def Thread.panning? : Thread → Option ℕ
  | .writing _ phase _ => phase.panning?
  | _ => none

/-- A switch neither hides nor shows the terminal whose process runs, nor one whose screen `pan` is
moving. -/
def SwitchOk (e : OutEvent) (m : Output) : Prop :=
  ∀ t ∈ e.switch?, t ≠ m.display.visibleTerm →
    (m.current = .absent ∨
      (m.display.scheduledTerm ≠ m.display.visibleTerm ∧ m.display.scheduledTerm ≠ t)) ∧
    (m.thread m.display.visibleTerm).panning? = none ∧ (m.thread t).panning? = none

instance (e : OutEvent) (m : Output) : Decidable (SwitchOk e m) :=
  inferInstanceAs (Decidable (∀ t ∈ e.switch?, _ → (_ ∨ _) ∧ _ ∧ _))

/-- 1 for a writer that calls `putc` next. -/
def Phase.puts : Phase → ℕ
  | .setXY _ _ => 1
  | _ => 0

def Thread.puts : Thread → ℕ
  | .writing _ phase _ => phase.puts
  | _ => 0

/-- A process calls `putc` where the console is in the page of video memory, or where no page
is mapped. -/
def CellOk (e : OutEvent) (m : Output) : Prop :=
  e = .run → m.current.puts = 1 → m.display.CellOk

instance (e : OutEvent) (m : Output) : Decidable (CellOk e m) :=
  inferInstanceAs (Decidable (_ → _ → _))

/-! ### The invariant -/

/-- The page tables follow the scheduled terminal, and every `pan` moves the screen of its own
terminal. -/
structure VideoFollows (m : Output) : Prop where
  sched : m.display.scheduledTerm < numTtys
  visible : m.display.visibleTerm < numTtys
  tables : Display.VideoTables m.display.paging
  mapped : m.current ≠ .absent →
    (m.display.paging.pageTable0 0xB8).addr = m.display.screenPage m.display.scheduledTerm ∧
    (m.display.paging.userVidmapTable 0xB8).addr = m.display.screenPage m.display.scheduledTerm
  panning : ∀ t, ∀ mem ∈ (m.thread t).panning?, mem = m.display.panMem t

/-- A step of a writer draws, and `pan` goes on in the page that it has chosen. -/
lemma Phase.run_drawn (t : ℕ) (d : Display) (enabled : Bool) (rest : List UInt8) (phase : Phase) :
    match phase.run t d enabled rest with
    | .ok (d', th) => Display.Drawn d d' ∧ th ≠ .absent ∧
        ∀ mem ∈ th.panning?, mem = d.panMem t ∨ mem ∈ phase.panning?
    | .error d' => Display.Drawn d d' := by
  have hnone : ∀ {mem : ℕ} {P : Prop}, mem ∈ (none : Option ℕ) → P := fun h => absurd h (by simp)
  cases phase with
  | next =>
    cases rest with
    | nil =>
      refine ⟨?_, by simp, fun mem h => hnone h⟩
      split
      · exact Display.updateCursor_drawn t d
      · exact Display.Drawn.refl d
    | cons c cs =>
      rw [Phase.run]
      by_cases hc : c = 0
      · simp only [if_pos hc]
        exact ⟨Display.Drawn.refl d, by simp, fun mem h => hnone h⟩
      · simp only [if_neg hc]
        exact ⟨Display.cursorBefore_drawn c t d, by simp, fun mem h => hnone h⟩
  | setXY c p =>
    have hdraws := Display.putcAt_draws vidmem (Display.glyph c) attrib d
    rw [Phase.run, Display.putc]
    cases hput : Display.putcAt vidmem (Display.glyph c) attrib d with
    | error d' =>
      rw [hput] at hdraws
      exact hdraws
    | ok d' =>
      rw [hput] at hdraws
      exact ⟨hdraws, by simp, fun mem h => hnone h⟩
  | drawn c p =>
    rw [Phase.run]
    by_cases h8 : c = 8
    · rw [if_pos h8]
      exact ⟨Display.screenSeek_drawn d p, by simp, fun mem h => hnone h⟩
    · rw [if_neg h8]
      refine ⟨Display.setCursor_drawn d t _, by simp, fun mem h => ?_⟩
      rw [Thread.panning?] at h
      split at h
      · exact hnone h
      · exact hnone h
  | scroll =>
    refine ⟨Display.Drawn.refl d, by simp, fun mem h => Or.inl ?_⟩
    exact (Option.some.inj h).symm
  | move mem i =>
    refine ⟨⟨rfl, rfl, rfl, fun _ => rfl, fun _ => rfl⟩, by simp, fun mem' h => Or.inr ?_⟩
    rw [Thread.panning?] at h
    split at h
    · exact h
    · exact h
  | blank mem i =>
    refine ⟨⟨rfl, rfl, rfl, fun _ => rfl, fun _ => rfl⟩, by simp, fun mem' h => Or.inr ?_⟩
    rw [Thread.panning?] at h
    split at h
    · exact h
    · exact hnone h
  | home =>
    exact ⟨(Display.screenSeek_drawn d _).trans (Display.setCursor_drawn _ t _), by simp,
      fun mem h => hnone h⟩
  | _ => exact ⟨⟨rfl, rfl, rfl, fun _ => rfl, fun _ => rfl⟩, by simp, fun mem h => hnone h⟩

namespace VideoFollows

variable {m m' : Output}

/-- Where the page tables are right there is nothing to patch. -/
lemma writePatch_eq (h : VideoFollows m) (hcur : m.current ≠ .absent) :
    m.display.writePatch = m.display := by
  have hmap := (h.mapped hcur).1
  rw [Display.writePatch, if_neg]
  rintro ⟨hne, hframe⟩
  rw [Display.frame, videoMemAddr, hmap, Display.screenPage, if_neg hne] at hframe
  omega

/-- Drawing does not touch the page tables. -/
lemma draw (h : VideoFollows m) {d : Display} {f : ℕ → Thread} {b : Bool} {sw : Option ℕ}
    (hd : Display.Drawn m.display d)
    (habsent : m.current = .absent → f m.display.scheduledTerm = .absent)
    (hpanning : ∀ t, ∀ mem ∈ (f t).panning?, mem = m.display.panMem t) :
    VideoFollows ⟨d, f, b, sw⟩ := by
  refine ⟨hd.scheduledTerm ▸ h.sched, hd.visibleTerm ▸ h.visible, hd.paging ▸ h.tables,
    fun hne => ?_, fun t mem hmem => ?_⟩
  · have hpage : d.screenPage d.scheduledTerm = m.display.screenPage m.display.scheduledTerm := by
      rw [Display.screenPage, Display.screenPage, hd.scheduledTerm, hd.visibleTerm]
    rw [hpage, hd.paging]
    refine h.mapped fun habs => hne ?_
    dsimp only [Output.current]
    rw [hd.scheduledTerm]
    exact habsent habs
  · rw [Display.panMem, hd.visibleTerm]
    exact hpanning t mem hmem

/-- The thread of the scheduled terminal is another one. -/
lemma update_panning (h : VideoFollows m) {th : Thread}
    (hth : ∀ mem ∈ th.panning?, mem = m.display.panMem m.display.scheduledTerm) (t : ℕ) :
    ∀ mem ∈ (Function.update m.thread m.display.scheduledTerm th t).panning?,
      mem = m.display.panMem t := by
  by_cases ht : t = m.display.scheduledTerm
  · rw [ht, Function.update_self]
    exact hth
  · rw [Function.update_of_ne ht]
    exact h.panning t

lemma drawResult (h : VideoFollows m) {r : Except Display Display} (hr : Display.Draws m.display r) :
    VideoFollows (m.draw r) := by
  cases r with
  | ok d => exact h.draw hr id h.panning
  | error d => exact h.draw hr id h.panning

/-- The display after the patch of `terminal_write`. -/
lemma patch (h : VideoFollows m) : VideoFollows { m with display := m.display.writePatch } := by
  by_cases hcur : m.current = .absent
  · obtain ⟨table, heq, -⟩ := Display.writePatch_eq m.display
    have htables := h.tables.writePatch
    rw [heq] at htables ⊢
    exact ⟨h.sched, h.visible, htables, fun hne => absurd hcur hne, h.panning⟩
  · rw [h.writePatch_eq hcur]
    exact h

/-- A tick maps the screen of the next terminal. -/
lemma tick (h : VideoFollows m) : VideoFollows m.tick := by
  have hadv := Display.pitAdvance_advanced m.display
  have hmapped : ∀ f : ℕ → Thread, (∀ t, ∀ mem ∈ (f t).panning?, mem = m.display.panMem t) →
      VideoFollows ⟨m.display.pitAdvance, f, m.fault, m.switching⟩ := by
    intro f hf
    generalize m.display.pitAdvance = d at hadv ⊢
    have hpage : d.screenPage d.scheduledTerm = m.display.screenPage d.scheduledTerm := by
      rw [Display.screenPage, Display.screenPage, hadv.visibleTerm]
    refine ⟨?_, hadv.visibleTerm ▸ h.visible, ?_, fun _ => ?_, fun t mem hmem => ?_⟩
    · rw [hadv.scheduledTerm]
      exact Nat.mod_lt _ (by decide)
    · rw [hadv.paging]
      exact h.tables.setAddr _ _
    · rw [hpage, hadv.paging]
      dsimp only
      rw [show (0xB8 : ℕ) = videoMemAddr from rfl, setPteAddr_self, setPteAddr_self]
      exact ⟨rfl, rfl⟩
    · rw [Display.panMem, hadv.visibleTerm]
      exact hf t mem hmem
  rw [Output.tick]
  split
  · refine hmapped _ fun t mem hmem => ?_
    dsimp only at hmem
    by_cases ht : t = m.display.pitAdvance.scheduledTerm
    · rw [ht, Function.update_self] at hmem
      exact absurd hmem (by simp [Thread.panning?])
    · rw [Function.update_of_ne ht] at hmem
      exact h.panning t mem hmem
  · exact hmapped _ h.panning

/-- A switch that leaves the scheduled terminal where it is keeps its mapping right. -/
lemma switch (h : VideoFollows m) {t : ℕ} (ht : t < numTtys) (hok : SwitchOk (.switch t) m) :
    VideoFollows (m.switchTo t) := by
  rw [Output.switchTo]
  by_cases hne : t = m.display.visibleTerm
  · rw [if_pos hne]
    exact h
  rw [if_neg hne]
  obtain ⟨hsched, hvisible, -, hpaging, -, -⟩ := Display.showTerm_fields t m.display
  obtain ⟨hcases, hhidden, hshown⟩ := hok t rfl hne
  generalize m.display.showTerm t = d at hsched hvisible hpaging ⊢
  refine ⟨hsched ▸ h.sched, hvisible ▸ ht, hpaging ▸ h.tables, fun hcur => ?_, fun u mem hmem => ?_⟩
  · have hcur' : m.current ≠ .absent := by
      rw [Output.current, hsched] at hcur
      exact hcur
    obtain ⟨hv, ht'⟩ := hcases.resolve_left hcur'
    have hpage : d.screenPage d.scheduledTerm = m.display.screenPage m.display.scheduledTerm := by
      rw [Display.screenPage, Display.screenPage, hsched, hvisible, if_neg ht', if_neg hv]
    rw [hpage, hpaging]
    exact h.mapped hcur'
  · -- nothing moves the screens that are hidden and shown
    dsimp only at hmem
    have hut : u ≠ t := by
      rintro rfl
      exact absurd hmem (by simp [hshown])
    have huv : u ≠ m.display.visibleTerm := by
      rintro rfl
      exact absurd hmem (by simp [hhidden])
    have hmem' := h.panning u mem hmem
    rw [Display.panMem, if_neg huv] at hmem'
    rw [Display.panMem, hvisible, if_neg hut]
    exact hmem'

/-- **The invariant step.** -/
theorem step {e : OutEvent} (h : VideoFollows m) (hswitch : SwitchOk e m)
    (hs : m.step e = some m') :
    VideoFollows m' := by
  obtain ⟨-, heff⟩ := Output.step_effect hs
  cases heff with
  | tick hen => exact h.tick
  | @echo c hen =>
    have hdraws := Display.echo_draws c m.display
    have hsame : ({ m with display := m.display.writePatch } : Output).draw (m.display.echo c)
        = m.draw (m.display.echo c) := by
      cases m.display.echo c <;> rfl
    rw [← hsame]
    exact h.patch.drawResult hdraws
  | switch hen hnone ht => exact h.switch ht hswitch
  | number hb => exact h.draw (Display.drawStatus_drawn _) id h.panning
  | start hcur =>
    refine h.draw (Display.Drawn.refl _) (fun habs => ?_) (h.update_panning fun mem hmem => ?_)
    · rw [hcur] at habs
      exact absurd habs (by simp)
    · exact absurd hmem (by simp [Thread.panning?])
  | write hcur =>
    rw [h.writePatch_eq (by rw [hcur]; simp)]
    refine h.draw (Display.Drawn.refl _) (fun habs => ?_) (h.update_panning fun mem hmem => ?_)
    · rw [hcur] at habs
      exact absurd habs (by simp)
    · exact absurd hmem (by simp [Thread.panning?, Phase.panning?])
  | @store i b hcur hb hi => exact h.drawResult (Display.userPoke_draws m.display i b)
  | @run enabled phase rest hcur =>
    have hdrawn := phase.run_drawn m.display.scheduledTerm m.display enabled rest
    have hne : m.current = .absent → False := by
      rw [hcur]
      exact fun habs => absurd habs (by simp)
    have hself := h.panning m.display.scheduledTerm
    rw [show m.thread m.display.scheduledTerm = .writing enabled phase rest from hcur] at hself
    rw [Output.runWriter]
    cases hrun : phase.run m.display.scheduledTerm m.display enabled rest with
    | error d =>
      rw [hrun] at hdrawn
      exact h.draw hdrawn (fun habs => (hne habs).elim) h.panning
    | ok x =>
      rw [hrun] at hdrawn
      obtain ⟨hd, -, hpanning⟩ := hdrawn
      refine h.draw hd (fun habs => (hne habs).elim) (h.update_panning fun mem hmem => ?_)
      exact (hpanning mem hmem).elim id (hself mem)

end VideoFollows

lemma follows_boot (l : Layout) (pg : Paging) (vram : ℕ → ℕ → UInt8) (mem : ℤ → Pcb) :
    VideoFollows (Output.boot l pg vram mem) :=
  ⟨Nat.lt_succ_self 2, Nat.zero_lt_succ 2, Display.tables_boot l pg vram mem,
    fun hne => absurd rfl hne, fun _ _ hmem => absurd hmem (by simp [Output.boot, Thread.panning?])⟩

/-! ### Where the stores go -/

/-- A step of the writer of the terminal `t` stores in the screen of `t` only. -/
lemma Phase.run_keepsPage {t : ℕ} {d : Display} (enabled : Bool) (rest : List UInt8)
    (phase : Phase) (ht : Display.VideoTables d.paging) (h3 : t < numTtys)
    (hmap : (d.paging.pageTable0 0xB8).addr = d.screenPage t)
    (hpan : ∀ mem ∈ phase.panning?, mem = d.panMem t)
    (hcell : phase.puts = 1 → d.CellOk) {q : ℕ} (hq : q ≠ d.screenPage t) :
    Display.KeepsPage q d ((phase.run t d enabled rest).map Prod.fst) := by
  cases phase with
  | next =>
    cases rest with
    | nil =>
      rw [Phase.run]
      dsimp only [Except.map]
      split
      · rfl
      · rfl
    | cons c cs =>
      rw [Phase.run]
      by_cases hc : c = 0
      · simp only [if_pos hc]
        rfl
      · simp only [if_neg hc]
        exact (Display.cursorBefore_on c t d).pages q hq
  | setXY c p =>
    have hput := Display.putc_keepsPage (Display.glyph c) hmap (hcell rfl) hq
    rw [Phase.run]
    cases h : d.putc (Display.glyph c) attrib with
    | error d' =>
      rw [h] at hput
      exact hput
    | ok d' =>
      rw [h] at hput
      exact hput
  | drawn c p =>
    rw [Phase.run]
    by_cases h8 : c = 8
    · rw [if_pos h8]
      rfl
    · rw [if_neg h8]
      rfl
  | move mem i =>
    obtain rfl := hpan mem rfl
    exact (Display.setPage_on ht h3 _).pages q hq
  | blank mem i =>
    obtain rfl := hpan mem rfl
    exact (Display.setPage_on ht h3 _).pages q hq
  | _ => rfl

/-- The thread is a program, or a writer. -/
def Thread.Active : Thread → Prop
  | .user => True
  | .writing _ _ _ => True
  | _ => False

instance : DecidablePred Thread.Active
  | .absent => .isFalse id
  | .booting => .isFalse id
  | .user => .isTrue trivial
  | .writing _ _ _ => .isTrue trivial

lemma Thread.Active.ne_absent {th : Thread} (h : th.Active) : th ≠ .absent := by
  rintro rfl
  exact h

/-- Video memory is that of the scheduled terminal: `0xB8000` maps to its screen for a program
and for a writer, and the page of the program's screen maps to it too. -/
structure VideoMapped (m : Output) : Prop where
  kernel : m.current.Active → (m.display.paging.pageTable0 0xB8).present ∧
    (m.display.paging.pageTable0 0xB8).addr = m.display.screenPage m.display.scheduledTerm
  program : m.current = .user → (m.display.paging.userVidmapTable 0xB8).present ∧
    (m.display.paging.userVidmapTable 0xB8).addr = m.display.screenPage m.display.scheduledTerm

/-- What the process stores goes to its own screen, and not to the page of the visible
terminal's screen that the next switch overwrites. -/
def StoresOwn (e : OutEvent) (m m' : Output) : Prop :=
  (e = .run ∨ ∃ i b, e = .store i b) →
    m.display.screenPage m.display.scheduledTerm ≠ termMem m.display.visibleTerm ∧
    ∀ q, q ≠ m.display.screenPage m.display.scheduledTerm →
      m'.display.vram q = m.display.vram q

namespace VideoFollows

variable {m m' : Output}

lemma videoMapped (h : VideoFollows m) : VideoMapped m := by
  refine ⟨fun hact => ?_, fun huser => ?_⟩
  · exact ⟨h.tables.kernel, (h.mapped hact.ne_absent).1⟩
  · exact ⟨h.tables.program, (h.mapped (by rw [huser]; simp)).2⟩

/-- The pages that a step of a process leaves alone. -/
lemma storesOwn (h : VideoFollows m) {e : OutEvent} (hcell : CellOk e m)
    (hs : m.step e = some m') : StoresOwn e m m' := by
  intro he
  refine ⟨?_, fun q hq => ?_⟩
  · rw [Display.screenPage, termMem]
    split
    · omega
    · omega
  obtain ⟨-, heff⟩ := Output.step_effect hs
  cases heff with
  | @run enabled phase rest hcur =>
    have hmap := (h.mapped (by rw [hcur]; simp)).1
    have hpan := h.panning m.display.scheduledTerm
    rw [show m.thread m.display.scheduledTerm = .writing enabled phase rest from hcur] at hpan
    have hkeeps := phase.run_keepsPage enabled rest h.tables h.sched hmap hpan
      (fun hputs => hcell rfl (by rw [hcur]; exact hputs)) hq
    rw [Output.runWriter]
    cases hrun : phase.run m.display.scheduledTerm m.display enabled rest with
    | error d =>
      rw [hrun] at hkeeps
      exact hkeeps
    | ok x =>
      rw [hrun] at hkeeps
      exact hkeeps
  | @store i b hcur hb hi =>
    have hpage := (h.mapped (by rw [hcur]; simp)).2
    rw [Display.userPoke]
    rw [show videoMemAddr = 0xB8 from rfl, if_pos h.tables.program, hpage]
    exact Function.update_of_ne hq ..
  | _ =>
    rcases he with he | ⟨i, b, he⟩
    · exact absurd he (by simp)
    · exact absurd he (by simp)

end VideoFollows

/-- **Output goes to its own terminal.**  In every run from boot in which no switch concerns the
terminal whose process runs or one whose screen is being moved, and no byte is drawn beyond the page
of video memory, the mapping is that of the scheduled terminal in every state reached, and the
processes store in their own screens at every step. -/
theorem video_mapped (l : Layout) (pg : Paging) (vram : ℕ → ℕ → UInt8) (mem : ℤ → Pcb)
    (m : Output)
    (h : Runs.Reach Output.step (fun e m => SwitchOk e m ∧ CellOk e m)
      (Output.boot l pg vram mem) m) :
    VideoMapped m ∧ ∀ e m', CellOk e m → m.step e = some m' → StoresOwn e m m' := by
  have hfollows : VideoFollows m := by
    refine h.invariant (follows_boot l pg vram mem) ?_
    exact fun e m₁ m₂ hm hok hs => hm.step hok.1 hs
  exact ⟨hfollows.videoMapped, fun e m' hcell hs => hfollows.storesOwn hcell hs⟩

/-- The machine at boot on zero memory. -/
def sampleOutput : Output := Output.boot sampleLayout samplePaging (fun _ _ => 0) samplePcbs

/-- The shells of the first two terminals run; while the second one writes, the third terminal
is shown and hidden again. -/
theorem video_mapped_switched :
    ∃ m, Runs.run Output.step [.tick, .start, .tick, .start, .write [65, 66], .run, .run, .run,
        .run, .run, .run, .switch 2, .number, .run, .run, .switch 0, .number] sampleOutput = some m ∧
      m.current.Active ∧ VideoMapped m ∧
      ∀ e m', CellOk e m → m.step e = some m' → StoresOwn e m m' := by
  let es : List OutEvent := [.tick, .start, .tick, .start, .write [65, 66], .run, .run, .run,
    .run, .run, .run, .switch 2, .number, .run, .run, .switch 0, .number]
  have hrun : (Runs.run (Runs.guarded Output.step fun e m => SwitchOk e m ∧ CellOk e m) es
      sampleOutput).any (fun m => m.current.Active) = true := by decide +kernel
  obtain ⟨m, hm, hactive⟩ := (Option.any_eq_true _ _).1 hrun
  exact ⟨m, Runs.run_of_guarded hm, of_decide_eq_true hactive,
    video_mapped sampleLayout samplePaging _ _ m (Runs.reach_of_guarded hm)⟩

/-- The second terminal is shown while the shell of the first one runs: what the shell stores
at `0xB8000` and in the page of its screen goes to the screen of the second terminal. -/
theorem video_of_visible_terminal :
    ∃ m, Runs.Reach Output.step (fun _ _ => True) sampleOutput m ∧ m.current = .user ∧
      m.display.screenPage m.display.scheduledTerm = 0xB9 ∧
      (m.display.paging.userVidmapTable 0xB8).addr = 0xB8 ∧
      m.display.screenPage m.display.visibleTerm = 0xB8 ∧ ¬VideoMapped m := by
  have hrun : (Runs.run Output.step [.tick, .start, .switch 1] sampleOutput).any (fun m =>
      m.current = .user ∧ m.display.screenPage m.display.scheduledTerm = 0xB9 ∧
      (m.display.paging.userVidmapTable 0xB8).addr = 0xB8 ∧
      m.display.screenPage m.display.visibleTerm = 0xB8) = true := by decide +kernel
  obtain ⟨m, hm, hstate⟩ := (Option.any_eq_true _ _).1 hrun
  obtain ⟨huser, hpage, haddr, hvisible⟩ := of_decide_eq_true hstate
  refine ⟨m, Runs.reach_of_run (fun _ _ => trivial) hm, huser, hpage, haddr, hvisible,
    fun hok => ?_⟩
  have hmap := (hok.program huser).2
  rw [haddr, hpage] at hmap
  exact absurd hmap (by decide)

end WnajOS
