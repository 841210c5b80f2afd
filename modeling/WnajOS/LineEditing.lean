import WnajOS.CursorBound

/-!
# Editing a line

Scancodes come in any order, between any steps of the kernel.  Two results about runs from boot
or from any state: the stores of the keyboard handler stay inside `input.buffer` as long as Enter
finds room for its newline, which nothing checks; and a line that is typed and entered since the
last read is handed out as it was edited.

An echo can fault, and leave the line in between.  Then nothing else ever happens: `report_error`
prints at the same place, where no page is, and faults again.
-/

namespace WnajOS

open LineDiscipline

/-! ### What a step does to the lines -/

/-- The line of a terminal. -/
def Board.input (b : Board) (t : ℕ) : Input := (b.kernel.terms t).input

/-- The line of the visible terminal. -/
def Board.line (b : Board) : Input := b.input b.kernel.visibleTerm

/-- The key for the line that an event is. -/
def BoardEvent.lineKey? (a : BoardEvent) (b : Board) : Option (Key UInt8) :=
  match a.event b with
  | .key control chr => lineKey control chr
  | _ => none

/-- The indices of `input.buffer` at which an event stores. -/
def BoardEvent.stores (a : BoardEvent) (b : Board) : List ℕ :=
  match a.lineKey? b with
  | some k => b.line.stores k
  | none => []

/-- Enter finds room for its newline. -/
def EnterFits (a : BoardEvent) (b : Board) : Prop :=
  a.lineKey? b = some .enter → b.line.idx.toNat < inputBufferSize - 1

instance (a : BoardEvent) (b : Board) : Decidable (EnterFits a b) :=
  inferInstanceAs (Decidable (_ → _))

/-! ### A cursor where no page is -/

namespace Display

/-- No page is where the cursor of the visible terminal is. -/
def Jammed (d : Display) : Prop :=
  let p := (d.terms d.visibleTerm).cursor
  (d.paging.pageTable0 ((physVidmemAddr + (termCols * p.row + p.col) * 2) / 4096)).present = false

variable {d d' : Display} {cs : List UInt8} {c color : UInt8}

/-- `screen_putc` faults where no page is, and has stored nothing. -/
lemma putcAt_error (h : d.putcAt physVidmemAddr c color = .error d') : d' = d ∧
    (d.paging.pageTable0 ((physVidmemAddr + (termCols * d.screenY + d.screenX) * 2) / 4096)).present
      = false := by
  by_cases hc : c ≠ 10 ∧ c ≠ 13 ∧ c ≠ 8 ∧ c ≠ 9
  · rw [putcAt_cell (by decide) hc] at h
    dsimp only at h
    split at h
    · exact absurd h (by simp)
    · rename_i habsent
      exact ⟨(Except.error.inj h).symm, Bool.not_eq_true _ ▸ habsent⟩
  · rw [putcAt] at h
    split at h
    · exact absurd h (by simp)
    split at h
    · exact absurd h (by simp)
    split at h
    · exact absurd h (by simp)
    · exact absurd (by tauto) hc

/-- A byte that faults leaves the cursor where it faulted. -/
lemma writeChar_error {t : ℕ} (ht : t = d.visibleTerm) (h : d.writeChar true t c = .error d') :
    d'.Jammed := by
  have hbefore := cursorBefore_drawn c t d
  rw [← hbefore.visibleTerm] at ht
  rw [writeChar] at h
  split at h
  · exact absurd h (by simp)
  dsimp only [Bind.bind, Except.bind] at h
  clear hbefore
  generalize d.cursorBefore c t = d₁ at h ht
  cases hput : (d₁.screenSeek (d₁.terms t).cursor).put true (glyph c) with
  | ok d₂ =>
    rw [hput] at h
    exact absurd h (by simp [pure, Except.pure])
  | error d₂ =>
    rw [hput] at h
    obtain rfl := Except.error.inj h
    obtain ⟨rfl, habsent⟩ := putcAt_error hput
    rw [ht] at habsent
    exact ht ▸ habsent

lemma writeLoop_error {t : ℕ} (ht : t = d.visibleTerm) (h : d.writeLoop true t cs = .error d') :
    d'.Jammed := by
  induction cs generalizing d with
  | nil => exact absurd h (by simp [writeLoop])
  | cons c cs ih =>
    have hdraws := writeChar_draws true t c d
    rw [writeLoop] at h
    cases hchar : d.writeChar true t c with
    | error d₁ =>
      rw [hchar] at h
      obtain rfl := Except.error.inj h
      exact writeChar_error ht hchar
    | ok d₁ =>
      rw [hchar] at h hdraws
      exact ih (ht.trans hdraws.visibleTerm.symm) h

lemma showText_error (h : d.showText cs = .error d') : d'.Jammed := by
  rw [showText] at h
  cases hloop : d.writePatch.writeLoop true d.visibleTerm cs with
  | ok d₁ =>
    rw [hloop] at h
    exact absurd h (by simp [Except.map])
  | error d₁ =>
    rw [hloop] at h
    obtain rfl := Except.error.inj h
    exact writeLoop_error (writePatch_visibleTerm d).symm hloop

/-- The patch takes no page away and adds none. -/
lemma writePatch_present (d : Display) (n : ℕ) :
    (d.writePatch.paging.pageTable0 n).present = (d.paging.pageTable0 n).present := by
  obtain ⟨table, heq, rfl | ⟨-, -, rfl⟩⟩ := writePatch_eq d
  · rw [heq]
  · rw [heq]
    by_cases hn : n = videoMemAddr
    · subst hn
      dsimp only
      rw [setPteAddr_self]
    · exact congrArg Pte.present (Function.update_of_ne hn ..)

/-- A text faults at its first character. -/
lemma Jammed.showText (h : d.Jammed) (hg : glyph c = c)
    (hc : c ≠ 0 ∧ c ≠ 8 ∧ c ≠ 9 ∧ c ≠ 10 ∧ c ≠ 13) :
    ∃ d', d.showText (c :: cs) = .error d' ∧ d'.terms = d.terms := by
  obtain ⟨h0, h8, h9, h10, h13⟩ := hc
  have hvisible := writePatch_visibleTerm d
  have hterms := writePatch_terms d
  have habsent := h
  rw [Jammed, ← writePatch_present, ← hterms] at habsent
  rw [Display.showText, ← hterms]
  generalize d.writePatch = d₁ at habsent ⊢
  refine ⟨d₁.screenSeek (d₁.terms d.visibleTerm).cursor, ?_, rfl⟩
  have hput : (d₁.screenSeek (d₁.terms d.visibleTerm).cursor).put true c =
      .error (d₁.screenSeek (d₁.terms d.visibleTerm).cursor) := by
    rw [put, if_pos rfl, screenPutc, putcAt_cell (by decide) ⟨h10, h13, h8, h9⟩]
    exact if_neg (by simpa [screenSeek] using habsent)
  rw [writeLoop, writeChar, if_neg h0, cursorBefore, if_neg h8, hg]
  dsimp only [Bind.bind, Except.bind]
  rw [hput]
  rfl

/-- An echo that faults. -/
lemma typeChar_error (h : d.typeChar c = .error d') : d'.Jammed := by
  rw [typeChar, echo_eq_showText] at h
  exact showText_error h

lemma typeTab_error {n : ℕ} (h : d.typeTab n = .error d') : d'.Jammed := by
  induction n generalizing d with
  | zero => exact absurd h (by simp [typeTab])
  | succ n ih =>
    rw [typeTab] at h
    split at h
    · cases htype : d.typeChar 0x20 with
      | error d₁ =>
        rw [htype] at h
        obtain rfl := Except.error.inj h
        exact typeChar_error htype
      | ok d₁ =>
        rw [htype] at h
        exact ih h
    · exact absurd h (by simp)

/-- **A key whose echo faults** leaves the cursor where no page is. -/
lemma keyStroke_error {k : Key UInt8} (h : d.keyStroke k = .error d') : d'.Jammed := by
  cases k with
  | insert chr =>
    rw [keyStroke] at h
    split at h
    · exact typeChar_error h
    · exact absurd h (by simp)
  | tab => exact typeTab_error h
  | erase =>
    rw [keyStroke] at h
    split at h
    · rw [echo_eq_showText] at h
      exact showText_error h
    · exact absurd h (by simp)
  | enter =>
    rw [keyStroke] at h
    cases htype : d.typeChar 10 with
    | error d₁ =>
      rw [htype] at h
      obtain rfl := Except.error.inj h
      exact typeChar_error htype
    | ok d₁ =>
      rw [htype] at h
      exact absurd h (by simp [Bind.bind, Except.bind, pure, Except.pure])

end Display

/-- `report_error` starts with interrupts disabled, and faults before it enables them. -/
def Board.Stuck (b : Board) : Prop :=
  (∃ p e, b.kernel.ctl.point = .faulted p e) ∧ b.kernel.toDisplay.Jammed

/-- **Nothing else happens** in a stuck state than that `report_error` faults again. -/
lemma Board.Stuck.step {img : Image} {a : BoardEvent} {b b' : Board} (h : b.Stuck)
    (hs : b.step img a = some b') : a.event b = .report ∧ b'.Stuck := by
  obtain ⟨⟨p, e, hpt⟩, hjam⟩ := h
  rw [Board.step] at hs
  split at hs
  · obtain ⟨k', hk, rfl⟩ := Option.map_eq_some_iff.1 hs
    generalize a.event b = x at hk
    have hno : ∀ {y : Point}, b.kernel.ctl.point = y → (.faulted p e = y) :=
      fun hy => hpt.symm.trans hy
    cases step_cases hk with
    | tick hen =>
      rw [hpt] at hen
      exact hen.elim
    | key hen hs =>
      rw [hpt] at hen
      exact hen.elim
    | raise hs =>
      rw [raiseStep, hpt] at hs
      exact absurd hs (by simp)
    | @report p' e' n hreports =>
      rw [hpt] at hreports
      obtain ⟨rfl, rfl, rfl⟩ := Prod.mk.inj (Option.some.inj hreports) |>.imp_right Prod.mk.inj
      -- the first character of the first text
      obtain ⟨c, cs, hcs, hglyph, hc⟩ : ∃ c cs, e.report 2 = c :: cs ∧ Display.glyph c = c ∧
          (c ≠ 0 ∧ c ≠ 8 ∧ c ≠ 9 ∧ c ≠ 10 ∧ c ≠ 13) := ⟨0x2D, _, rfl, rfl, by decide⟩
      obtain ⟨d, hd, -⟩ : ∃ d, b.kernel.toDisplay.showText (c :: cs) = .error d ∧ _ :=
        hjam.showText hglyph hc
      refine ⟨rfl, ?_⟩
      rw [← hcs, ← Display.println_report] at hd
      obtain ⟨d', ⟨hr, -⟩ | ⟨hr, heq⟩⟩ := reportStep_cases p e 2 b.kernel
      · exact absurd (hr.symm.trans hd) (by simp)
      · rw [heq]
        rw [Display.println_report] at hr
        exact ⟨⟨p, .pageFault, rfl⟩, Display.showText_error hr⟩
    | execute hp => exact absurd (hno hp) (by simp)
    | bootExec hp => exact absurd (hno hp) (by simp)
    | restartExec hp => exact absurd (hno hp) (by simp)
    | enter hp => exact absurd (hno hp) (by simp)
    | call hp => exact absurd (hno hp) (by simp)
    | begin hp => exact absurd (hno hp) (by simp)
    | finish hp => exact absurd (hno hp) (by simp)
    | halt hp => exact absurd (hno hp) (by simp)
    | raisedHalt hp => exact absurd (hno hp) (by simp)
  · exact absurd hs (by simp)

/-! ### Steps -/

/-- What a step does to the lines. -/
inductive Board.LineEffect (b : Board) (a : BoardEvent) (b' : Board) : Prop
  | other (ha : a.lineKey? b = none) (hr : (a.event b).lineRead? b.kernel = none)
      (h : ∀ t, b'.input t = b.input t) : LineEffect b a b'
  | done {k : Key UInt8} (ha : a.lineKey? b = some k) (h : ∀ t, b'.input t =
      if t = b.kernel.visibleTerm then b.line.key k else b.input t) : LineEffect b a b'
  | cut {k : Key UInt8} {inp : Input} (ha : a.lineKey? b = some k) (hstuck : b'.Stuck)
      (hfault : b.kernel.toDisplay.keyStroke k = .error b'.kernel.toDisplay)
      (hcut : b.line.Cut k inp)
      (h : ∀ t, b'.input t = if t = b.kernel.visibleTerm then inp else b.input t) :
      LineEffect b a b'
  | read {buf : Buf} {nbytes : Int32} (ha : a.lineKey? b = none)
      (hr : (a.event b).lineRead? b.kernel = some (buf, nbytes)) (hn : 0 ≤ nbytes.toInt)
      (heol : (b.input b.kernel.scheduledTerm).eol = true)
      (h : ∀ t, b'.input t =
        if t = b.kernel.scheduledTerm then (b.input t).reset else b.input t) : LineEffect b a b'

lemma BoardEvent.lineKey?_of_not_key {a : BoardEvent} {b : Board}
    (h : (a.event b).isKey = false) : a.lineKey? b = none := by
  rw [lineKey?]
  cases he : a.event b with
  | key control chr =>
    rw [he] at h
    exact absurd h (by simp [Event.isKey])
  | _ => rfl

/-- A key whose handler faults is followed by the report of the fault. -/
lemma keyStep_faulted {control : Bool} {chr : UInt8} {k k' : Kernel} {d : Display}
    (hs : keyStep control chr k = some k')
    (h : k.toDisplay.keyboardHandler control chr = .error d) :
    ∃ p, k'.ctl.point = .faulted p .pageFault := by
  obtain ⟨d', ⟨hr, -⟩ | ⟨-, p, -, rfl⟩⟩ := keyStep_eq_some hs
  · exact absurd (hr.symm.trans h) (by simp)
  · exact ⟨p, rfl⟩

/-- **What a step does to the lines.** -/
theorem Board.step_lines {img : Image} {a : BoardEvent} {b b' : Board}
    (hs : b.step img a = some b') : b.LineEffect a b' := by
  rw [Board.step] at hs
  split at hs
  · obtain ⟨k', hk, rfl⟩ := Option.map_eq_some_iff.1 hs
    cases WnajOS.step_lines hk with
    | @key control chr he h =>
      have ha : a.lineKey? b = lineKey control chr := by rw [BoardEvent.lineKey?, he]
      have hkey := Display.keyboardHandler_lines control chr b.kernel.toDisplay
      have hstroke : ∀ k, lineKey control chr = some k →
          b.kernel.toDisplay.keyboardHandler control chr = b.kernel.toDisplay.keyStroke k :=
        fun k hk => Display.keyboardHandler_of_lineKey hk _
      rw [← ha] at hkey hstroke
      generalize hlk : a.lineKey? b = lk at hkey hstroke
      rcases h with h | h
      · rw [h] at hkey
        cases hkey with
        | other hline => exact .other hlk (by rw [he]; rfl) hline
        | done hline => exact .done hlk hline.2
      · rw [he] at hk
        have hpoint : ∃ p, k'.ctl.point = .faulted p .pageFault := by
          cases step_cases hk with
          | key _ hs => exact keyStep_faulted hs h
        obtain ⟨p, hp⟩ := hpoint
        rw [h] at hkey
        cases hkey with
        | fault hline => exact .other hlk (by rw [he]; rfl) hline
        | @cut k _ _ hcut hline =>
          have hfault := (hstroke k rfl).symm.trans h
          exact .cut hlk ⟨⟨p, _, hp⟩, Display.keyStroke_error hfault⟩ hfault hcut hline.2
    | read he hn heol h =>
      refine .read (BoardEvent.lineKey?_of_not_key ?_) he hn heol h
      cases ha : a.event b with
      | key control chr =>
        rw [ha] at he
        exact absurd he (by simp [Event.lineRead?, Event.call?])
      | _ => rfl
    | kept hkey he h => exact .other (BoardEvent.lineKey?_of_not_key hkey) he h
  · exact absurd hs (by simp)

/-- Nothing is stored for a newline, wherever the cursor is. -/
lemma echo_newline (d : Display) : ∃ d', d.echo 10 = .ok d' := ⟨_, rfl⟩

/-- The echo of Enter does not fault. -/
lemma keyStroke_enter {d : Display} (h : d.line.idx.toNat < inputBufferSize) :
    ∃ d', d.keyStroke .enter = .ok d' := by
  have hbyte : d.line.typedByte 10 = 10 := Input.typedByte_of_lt 10 h
  let inp := d.line.store d.line.idx.toNat 10
  obtain ⟨d', hecho⟩ := echo_newline (d.setLine { inp with idx := inp.idx + 1 })
  have htype : Display.typeChar 10 d = .ok d' := by
    rw [Display.typeChar]
    change Display.echo (d.line.typedByte 10) (d.setLine { inp with idx := inp.idx + 1 }) = _
    rw [hbyte]
    exact hecho
  exact ⟨d'.setLine { d'.line with eol := true }, by rw [Display.keyStroke, htype]; rfl⟩

/-! ### The stores of the handler -/

/-- The index of every line is inside the array. -/
def Board.Bounded (b : Board) : Prop := ∀ t, (b.input t).idx.toNat < inputBufferSize

/-- The event changes no byte of an array but those at its indices of the visible terminal's. -/
def StoresLine (a : BoardEvent) (b b' : Board) : Prop :=
  ∀ t i, (b'.input t).buffer i ≠ (b.input t).buffer i → t = b.kernel.visibleTerm ∧ i ∈ a.stores b

/-- The event stores inside the array, and the indices stay inside it. -/
def InBounds (a : BoardEvent) (b b' : Board) : Prop :=
  (∀ i ∈ a.stores b, i < inputBufferSize) ∧ StoresLine a b b' ∧ b'.Bounded

/-- **One step.**  From indices inside the array, it stores inside the array and leaves them
inside it if and only if Enter finds room. -/
lemma Board.Bounded.step {img : Image} {a : BoardEvent} {b b' : Board} (h : b.Bounded)
    (hs : b.step img a = some b') : InBounds a b b' ↔ EnterFits a b := by
  -- the line of the visible terminal after a key
  have hkey : ∀ k inp, a.lineKey? b = some k →
      (∀ t, b'.input t = if t = b.kernel.visibleTerm then inp else b.input t) →
      (k ≠ .enter → inp.idx.toNat < inputBufferSize) →
      (k = .enter → inp.idx.toNat = b.line.idx.toNat + 1) →
      ((∀ i ∈ b.line.stores k, i < inputBufferSize) →
        ∀ i ∉ b.line.stores k, inp.buffer i = b.line.buffer i) →
      (InBounds a b b' ↔ EnterFits a b) := by
    intro k inp ha hline hother henter hbuffer
    have hbounded : b'.Bounded ↔ inp.idx.toNat < inputBufferSize := by
      constructor
      · intro hb
        have hv := hb b.kernel.visibleTerm
        rwa [hline, if_pos rfl] at hv
      · intro hidx t
        rw [hline]
        split
        · exact hidx
        · exact h t
    have hstores : a.stores b = b.line.stores k := by rw [BoardEvent.stores, ha]
    have hthere : (∀ i ∈ b.line.stores k, i < inputBufferSize) → StoresLine a b b' := by
      intro hlt t i hne
      rw [hline] at hne
      rw [hstores]
      by_cases ht : t = b.kernel.visibleTerm
      · rw [if_pos ht, ht] at hne
        exact ⟨ht, not_not.1 fun hi => hne (hbuffer hlt i hi)⟩
      · rw [if_neg ht] at hne
        exact absurd rfl hne
    rw [InBounds, hbounded, hstores, EnterFits, ha]
    by_cases hk : k = .enter
    · subst hk
      rw [henter rfl]
      constructor
      · rintro ⟨-, -, hlt⟩ -
        omega
      · intro hfits
        have hroom := hfits rfl
        have hlt : ∀ i ∈ b.line.stores .enter, i < inputBufferSize := by
          intro i hi
          rw [List.mem_singleton.1 hi]
          exact h _
        exact ⟨hlt, hthere hlt, by omega⟩
    · have hlt := Input.stores_lt hk (h b.kernel.visibleTerm)
      exact ⟨fun _ heq => absurd (Option.some.inj heq) hk, fun _ => ⟨hlt, hthere hlt, hother hk⟩⟩
  have hno : a.lineKey? b = none → (∀ t, (b'.input t).buffer = (b.input t).buffer) → b'.Bounded →
      (InBounds a b b' ↔ EnterFits a b) := by
    intro ha hsame hb
    rw [InBounds, BoardEvent.stores, EnterFits, ha]
    refine ⟨fun _ heq => absurd heq (by simp),
      fun _ => ⟨fun i hi => absurd hi List.not_mem_nil, ?_, hb⟩⟩
    intro t i hne
    rw [hsame] at hne
    exact absurd rfl hne
  cases Board.step_lines hs with
  | other ha hr hline =>
    refine hno ha (fun t => by rw [hline]) fun t => ?_
    rw [hline]
    exact h t
  | done ha hline =>
    refine hkey _ _ ha hline (fun hk => Input.key_idx_lt hk (h _)) ?_ fun hlt i hi => ?_
    · rintro rfl
      exact Input.enter_idx (h _)
    · exact Input.key_buffer hlt hi
  | cut ha hstuck hfault hcut hline =>
    refine hkey _ _ ha hline (fun hk => hcut.idx_lt hk (h _)) ?_ fun hlt i hi => hcut.buffer hlt hi
    rintro rfl
    exact hcut.enter_idx (h _)
  | read ha hr hn heol hline =>
    refine hno ha (fun t => ?_) fun t => ?_
    · rw [hline]
      split
      · rfl
      · rfl
    · rw [hline]
      split
      · exact Nat.succ_pos _
      · exact h t

lemma bounded_boot (l : Layout) (pg : Paging) (vram : ℕ → ℕ → UInt8) (mem : ℤ → Pcb) :
    (Board.boot l pg vram mem).Bounded := fun _ => Nat.succ_pos 127

/-- **The keyboard buffer.**  In every run from boot in which Enter finds room for its newline, the
index of every line stays inside `input.buffer`; and a step stores inside the array and keeps
the indices inside it if and only if it meets that condition. -/
theorem buffer_in_bounds (img : Image) (l : Layout) (pg : Paging) (vram : ℕ → ℕ → UInt8)
    (mem : ℤ → Pcb) (b : Board)
    (h : Runs.Reach (Board.step img) EnterFits (Board.boot l pg vram mem) b) :
    b.Bounded ∧ ∀ a b', b.step img a = some b' → (InBounds a b b' ↔ EnterFits a b) := by
  have hbounded : b.Bounded := by
    refine h.invariant (P := Board.Bounded) (bounded_boot l pg vram mem) ?_
    exact fun a b₁ b₂ hb hok hs => ((hb.step hs).2 hok).2.2
  exact ⟨hbounded, fun a b' hs => hbounded.step hs⟩

/-- Enter is pressed a number of times. -/
def enters (n : ℕ) : List BoardEvent := List.replicate n (.scancode 0x1C)

/-- There is room for the newlines of 127 times Enter, though nothing reads a line. -/
theorem buffer_in_bounds_full :
    ∃ b, Runs.run (Board.step sampleImage) (enters 127) sampleBoard = some b ∧
    b.line.idx = 127 ∧ b.Bounded := by
  have hrun : (Runs.run (Runs.guarded (Board.step sampleImage) EnterFits) (enters 127)
      sampleBoard).any (fun b => b.line.idx = 127) = true := by
    decide +kernel
  obtain ⟨b, hb, hidx⟩ := (Option.any_eq_true _ _).1 hrun
  exact ⟨b, Runs.run_of_guarded hb, of_decide_eq_true hidx,
    (buffer_in_bounds sampleImage sampleLayout samplePaging _ _ b (Runs.reach_of_guarded hb)).1⟩

/-- The next newline fills the array, and the one after it is stored in `idx`. -/
theorem newline_stored_in_idx :
    ∃ b, Runs.Reach (Board.step sampleImage) (fun _ _ => True) sampleBoard b ∧
    b.line.idx = 128 ∧ ¬b.Bounded ∧ BoardEvent.stores (.scancode 0x1C) b = [128] ∧
    ∃ b', b.step sampleImage (.scancode 0x1C) = some b' ∧ b'.line.idx = 11 := by
  have hrun : (Runs.run (Board.step sampleImage) (enters 128) sampleBoard).any
      (fun b => b.line.idx = 128 ∧ BoardEvent.stores (.scancode 0x1C) b = [128] ∧
        (b.step sampleImage (.scancode 0x1C)).any (fun b' => b'.line.idx = 11)) = true := by
    decide +kernel
  obtain ⟨b, hb, hstate⟩ := (Option.any_eq_true _ _).1 hrun
  obtain ⟨hidx, hstores, hnext⟩ := of_decide_eq_true hstate
  obtain ⟨b', hb', hidx'⟩ := (Option.any_eq_true _ _).1 hnext
  refine ⟨b, Runs.reach_of_run (fun _ _ => trivial) hb, hidx, fun hbounded => ?_, hstores, b', hb',
    of_decide_eq_true hidx'⟩
  have hlt : b.line.idx.toNat < inputBufferSize := hbounded _
  rw [hidx] at hlt
  exact absurd hlt (by decide)

/-! ### The line that is read -/

/-- The kernel and the keys that were handled while the terminal `t` was visible.  No code reads
`keys`. -/
structure Typed where
  board : Board
  keys : List (Key UInt8)

/-- The keys after an event. -/
def BoardEvent.keysAfter (t : ℕ) (a : BoardEvent) (b : Board) (keys : List (Key UInt8)) :
    List (Key UInt8) :=
  if b.kernel.visibleTerm = t then keys ++ (a.lineKey? b).toList else keys

/-- One step with its record. -/
def Typed.step (img : Image) (t : ℕ) (a : BoardEvent) (T : Typed) : Option Typed :=
  (T.board.step img a).map (⟨·, a.keysAfter t T.board T.keys⟩)

/-- No `terminal_read` of `t` returns. -/
def Unread (t : ℕ) (a : BoardEvent) (T : Typed) : Prop :=
  T.board.kernel.scheduledTerm = t → (a.event T.board).lineRead? T.board.kernel = none

instance (t : ℕ) (a : BoardEvent) (T : Typed) : Decidable (Unread t a T) :=
  decidable_of_iff (T.board.kernel.scheduledTerm = t →
      ((a.event T.board).lineRead? T.board.kernel).isNone)
    ⟨fun h ht => Option.isNone_iff_eq_none.1 (h ht), fun h ht => Option.isNone_iff_eq_none.2 (h ht)⟩

/-- The line represents what the keys have made of it: the line being edited, unless an echo has
faulted, or the one that the last of them entered. -/
structure Follows (t : ℕ) (T : Typed) : Prop where
  editing : .enter ∉ T.keys →
    T.board.Stuck ∨ (T.board.input t).Represents ⟨[], lineDiscipline.edited T.keys⟩
  entered : ∀ keys, T.keys = keys ++ [.enter] → .enter ∉ keys →
    (T.board.input t).Represents ⟨[lineDiscipline.edited keys ++ [10]], []⟩

/-- **One step** in which no read of `t` returns. -/
lemma Follows.step {img : Image} {t : ℕ} {a : BoardEvent} {T T' : Typed} (h : Follows t T)
    (hok : Unread t a T) (hs : T.step img t a = some T') : Follows t T' := by
  obtain ⟨b', hb, rfl⟩ := Option.map_eq_some_iff.1 hs
  obtain ⟨b, keys⟩ := T
  dsimp only at hb ⊢
  -- neither the line nor the record changes
  have hsame : b'.input t = b.input t → a.keysAfter t b keys = keys →
      Follows t ⟨b', a.keysAfter t b keys⟩ := by
    intro hinput hkeys
    rw [hkeys]
    constructor
    · intro hno
      rw [hinput]
      exact (h.editing hno).imp_left fun hstuck => (hstuck.step hb).2
    · intro ks hks hno
      rw [hinput]
      exact h.entered ks hks hno
  have hnone : a.lineKey? b = none → a.keysAfter t b keys = keys := by
    intro ha
    rw [BoardEvent.keysAfter, ha, Option.toList_none, List.append_nil, ite_self]
  -- a key comes in no stuck state
  have hediting : ∀ k, a.lineKey? b = some k → .enter ∉ keys →
      (b.input t).Represents ⟨[], lineDiscipline.edited keys⟩ := by
    intro k ha hno
    refine (h.editing hno).resolve_left fun hstuck => ?_
    rw [BoardEvent.lineKey?, (hstuck.step hb).1] at ha
    exact absurd ha (by simp)
  -- a key for the line of `t`
  have hkeyed : ∀ k, a.lineKey? b = some k → b.kernel.visibleTerm = t →
      (.enter ∉ keys → b'.Stuck ∧ k ≠ .enter ∨ b'.input t = (b.input t).key k) →
      Follows t ⟨b', a.keysAfter t b keys⟩ := by
    intro k ha hv hinput
    have hkeys : a.keysAfter t b keys = keys ++ [k] := by
      rw [BoardEvent.keysAfter, if_pos hv, ha, Option.toList_some]
    have hnext : .enter ∉ keys → b'.Stuck ∧ k ≠ .enter ∨ (b'.input t).Represents
        (lineDiscipline.key ⟨[], lineDiscipline.edited keys⟩ k) := by
      intro hno
      refine (hinput hno).imp_right fun heq => ?_
      have hrep := hediting k ha hno
      have heol : (b.input t).eol = false := by
        cases hrep with
        | editing heol => exact heol
      rw [heq]
      exact hrep.key (Discipline.length_edited_le keys) heol k
    rw [hkeys]
    constructor
    · intro hno
      rw [List.mem_append, not_or, List.mem_singleton] at hno
      refine (hnext hno.1).imp And.left fun hrep => ?_
      rw [Discipline.key_of_ne_enter (Ne.symm hno.2)] at hrep
      rw [Discipline.edited_concat]
      exact hrep
    · intro ks hks hno
      obtain ⟨rfl, hk⟩ := List.append_inj' hks rfl
      obtain rfl : k = .enter := List.singleton_inj.1 hk
      exact (hnext hno).resolve_left fun hcut => hcut.2 rfl
  cases Board.step_lines hb with
  | other ha hr hline => exact hsame (hline t) (hnone ha)
  | @cut k inp ha hstuck hfault hcut hline =>
    by_cases hv : b.kernel.visibleTerm = t
    · refine hkeyed k ha hv fun hno => Or.inl ⟨hstuck, ?_⟩
      -- the echo of Enter does not fault
      rintro rfl
      have hidx : b.line.idx.toNat < inputBufferSize := by
        have hrep := hediting _ ha hno
        rw [Board.line, hv]
        cases hrep with
        | editing heol hl =>
          have hlen : (lineDiscipline.edited keys).length ≤ inputBufferSize - 2 :=
            Discipline.length_edited_le keys
          have heq : (b.input t).idx.toNat = (lineDiscipline.edited keys).length := hl.length
          rw [heq, inputBufferSize]
          rw [inputBufferSize] at hlen
          omega
      obtain ⟨d, hd⟩ := keyStroke_enter (d := b.kernel.toDisplay) hidx
      exact absurd (hd.symm.trans hfault) (by simp)
    · refine hsame ?_ (if_neg hv)
      rw [hline, if_neg (Ne.symm hv)]
  | read ha hr hn heol hline =>
    by_cases hsched : b.kernel.scheduledTerm = t
    · exact absurd (hr.symm.trans (hok hsched)) (by simp)
    · refine hsame ?_ (hnone ha)
      rw [hline, if_neg (Ne.symm hsched)]
  | @done k ha hline =>
    by_cases hv : b.kernel.visibleTerm = t
    · refine hkeyed k ha hv fun _ => Or.inr ?_
      rw [hline, if_pos hv.symm, Board.line, hv]
    · refine hsame ?_ (if_neg hv)
      rw [hline, if_neg (Ne.symm hv)]

/-- **Line editing.**  From any state in which the line of `t` is empty and not entered, after any run
in which no read of `t` returns and the keys that come while `t` is visible are edits followed by one
Enter, a `terminal_read` of `t` does not wait: it returns the length of the edited line with its
newline or the size it was given, whichever is smaller, and that much of the line, and it leaves the
line empty and not entered. -/
theorem line_edited (img : Image) (t : ℕ) (b : Board) (hidx : (b.input t).idx = 0)
    (heol : (b.input t).eol = false) (T : Typed)
    (h : Runs.Reach (Typed.step img t) (Unread t) ⟨b, []⟩ T) (keys : List (Key UInt8))
    (hkeys : T.keys = keys ++ [.enter]) (hedits : .enter ∉ keys) (buf : Buf) (nbytes : Int32)
    (hn : 0 ≤ nbytes.toInt) :
    (T.board.input t).eol = true ∧
      ∃ out line, line = (lineDiscipline.edited keys ++ [10]).take nbytes.toInt.toNat ∧
        Holds out line ∧ (∀ i ≥ line.length, out i = buf i) ∧
        terminalRead (T.board.input t) buf nbytes =
          (Int32.ofNat line.length, out, { T.board.input t with eol := false, idx := 0 }) := by
  have hstart : Follows t ⟨b, []⟩ := by
    constructor
    · intro _
      exact Or.inr (.editing heol ⟨by rw [hidx]; rfl, Holds.nil _⟩)
    · intro ks hks
      exact absurd hks.symm (by simp)
  have hfollows : Follows t T :=
    h.invariant (P := Follows t) hstart fun a T₁ T₂ hT hok hs => hT.step hok hs
  have hrep := hfollows.entered keys hkeys hedits
  have hentered : (T.board.input t).eol = true := hrep.eol.2 (by simp)
  obtain ⟨l, s', hread, -, hres, hout⟩ := hrep.read hentered buf hn
  obtain ⟨rfl, -⟩ := Prod.mk.inj (Option.some.inj hread)
  refine ⟨hentered, _, _, rfl, hout, fun i hi => ?_, hres.trans ?_⟩
  · rw [hres]
    exact if_neg (by omega)
  · rw [hres]
    rfl

/-- The first terminal gets `h`, the second one, after Alt-F2, an `x`, and the first one again,
after Alt-F1, `ii`, Backspace, Tab and Enter. -/
def typedHi : List BoardEvent :=
  ([0x23, 0x38, 0x3C, 0x2D, 0x3B, 0xB8, 0x17, 0x17, 0x0E, 0x0F, 0x1C] : List UInt8).map .scancode

/-- A read of the first terminal returns `hi`, four blanks and a newline. -/
theorem line_edited_hi : ∃ T out,
    Runs.run (Typed.step sampleImage 0) typedHi ⟨sampleBoard, []⟩ = some T ∧
    Holds out [0x68, 0x69, 0x20, 0x20, 0x20, 0x20, 10] ∧
    terminalRead (T.board.input 0) noBuf 128 =
      (7, out, { T.board.input 0 with eol := false, idx := 0 }) := by
  have hrun : (Runs.run (Runs.guarded (Typed.step sampleImage 0) (Unread 0)) typedHi
      ⟨sampleBoard, []⟩).any (fun T => T.keys =
        [.insert 0x68, .insert 0x69, .insert 0x69, .erase, .tab] ++ [.enter]) = true := by
    decide +kernel
  obtain ⟨T, hT, hkeys⟩ := (Option.any_eq_true _ _).1 hrun
  obtain ⟨-, out, line, hline, hout, -, hread⟩ := line_edited sampleImage 0 sampleBoard rfl rfl T
    (Runs.reach_of_guarded hT) _ (of_decide_eq_true hkeys) (by decide) noBuf 128 (by decide)
  have hhi : line = [0x68, 0x69, 0x20, 0x20, 0x20, 0x20, 10] := by
    rw [hline]
    decide
  subst hhi
  exact ⟨T, out, Runs.run_of_guarded hT, hout, hread⟩

end WnajOS
