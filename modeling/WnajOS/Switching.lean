import WnajOS.EndlessPage
import WnajOS.Preemption

/-!
# Screens, writes and switches

Three screens share two places: the screen of the visible terminal is the page that the display
shows, those of the others are kept aside.  `term_switch` moves two of them, and `terminal_write`
and `pan` choose the place by which terminal is visible when they are called.

Seen from a terminal none of this happens.  Its screen is what its own texts make of it, as on a
teletype that can rub out (`switching_keeps_screens`).
-/

namespace WnajOS

open Teletype

instance : NeZero termCols := ⟨by decide⟩

namespace Display

/-! ### Texts on a screen -/

/-- A byte is printed; a backspace rubs out what was printed last. -/
def printByte (s : Screen Cell termRows termCols) (c : UInt8) : Screen Cell termRows termCols :=
  if c = 8 then s.rub blankCell
  else match print? c with
    | some o => s.step blankCell o
    | none => s

/-- A text is printed. -/
def printText (s : Screen Cell termRows termCols) (cs : List UInt8) :
    Screen Cell termRows termCols := cs.foldl printByte s

/-- What the page of a terminal and its cursor show. -/
def screen (t : ℕ) (d : Display) : Screen Cell termRows termCols where
  cell i j := (d.vram (d.screenPage t) (cellAt i j), d.vram (d.screenPage t) (cellAt i j + 1))
  row := Fin.ofNat termRows (d.terms t).cursor.row
  col := Fin.ofNat termCols (d.terms t).cursor.col

section

variable {t : ℕ} {s : Screen Cell termRows termCols} {d d' : Display} {c : UInt8}
  {cs : List UInt8}

lemma displays_screen (h : (d.terms t).cursor.InRange) : Displays t (d.screen t) d := by
  obtain ⟨hrow, hcol⟩ := h
  refine ⟨Cursor.ext ?_ ?_, fun _ _ => rfl⟩
  · exact (Nat.mod_eq_of_lt hrow).symm
  · exact (Nat.mod_eq_of_lt hcol).symm

/-- A terminal displays one screen only. -/
lemma Displays.screen_eq (h : Displays t s d) : d.screen t = s := by
  ext i j
  · rw [h.cell]
    rfl
  · rw [h.cell]
    rfl
  · rw [screen, h.cursor]
    exact Nat.mod_eq_of_lt s.row.isLt
  · rw [screen, h.cursor]
    exact Nat.mod_eq_of_lt s.col.isLt

/-- A byte that is drawn as it is stands before the cursor then. -/
lemma printByte_last (hc : Printable c) (s : Screen Cell termRows termCols) :
    (printByte s c).last = (c, attrib) := by
  obtain ⟨h0, h8, h9, h10, h13⟩ := hc
  rw [printByte, if_neg h8, print?, if_neg h0, if_neg (by tauto), if_neg h9]
  exact s.last_put (by decide) blankCell (c, attrib)

/-- A terminal that shows the same displays the same screen. -/
lemma Displays.same (h : Displays t s d) (hsame : SameScreen t d d') : Displays t s d' := by
  refine ⟨hsame.cursor.trans h.cursor, fun i j => ?_⟩
  have hi : i.val < 24 := i.isLt
  have hj : j.val < 80 := j.isLt
  have hcell : cellAt i j + 1 < termRows * termCols * 2 := by
    change (80 * i.val + j.val) * 2 + 1 < 3840
    omega
  rw [h.cell, hsame.rows _ (by omega), hsame.rows _ hcell]

/-- The cursor goes back. -/
lemma Displays.back (h : Displays t s d) (hne : (d.terms t).cursor ≠ ⟨0, 0⟩) :
    Displays t s.back (d.cursorBefore 8 t) := by
  have hcursor := cursorBefore_cursor 8 t d
  rw [if_pos rfl] at hcursor
  have hon := cursorBefore_on 8 t d
  have hvram : (d.cursorBefore 8 t).vram = d.vram := cursorBefore_vram 8 t d
  constructor
  · rw [hcursor, Cursor.back, h.cursor, Screen.back]
    rw [h.cursor] at hne
    dsimp only
    by_cases h0 : s.col.val = 0
    · have hrow : s.row.val < 24 := s.row.isLt
      have hrow0 : s.row.val ≠ 0 := fun hr => hne (Cursor.ext hr h0)
      rw [if_pos h0, if_pos h0]
      refine Cursor.ext ?_ rfl
      change (s.row.val + 255) % 256 = s.row.val - 1
      omega
    · rw [if_neg h0, if_neg h0]
  · intro i j
    have hcell : s.back.cell = s.cell := by
      rw [Screen.back]
      split
      · rfl
      · rfl
    rw [hcell, hon.screenPage, hvram]
    exact h.cell i j

/-- **A backspace.** -/
lemma Displays.rub (h : Displays t s d) (hne : (d.terms t).cursor ≠ ⟨0, 0⟩) :
    Displays t (s.rub blankCell) (d.writtenChar (d.screenPage t) t 8) := by
  have hback := h.back hne
  have hpage := (cursorBefore_on 8 t d).screenPage t
  rw [Display.writtenChar, ← hpage]
  generalize d.cursorBefore 8 t = d₁ at hback ⊢
  rw [cursorAfter_eq, if_pos rfl]
  have hdrawn : Displays t (s.back.fill (glyph 8, attrib))
      ((d₁.screenSeek (d₁.terms t).cursor).drawGlyph (d₁.screenPage t) (glyph 8)) := by
    refine hback.fill (glyph 8) ?_ ?_ ?_
    · rw [drawGlyph_terms]
      rfl
    · rfl
    · rw [hback.cursor]
      rfl
  exact ⟨hdrawn.cursor, hdrawn.cell⟩

/-- **A byte.** -/
lemma Displays.writtenByte (h : Displays t s d) (ht : VideoTables d.paging) (h3 : t < numTtys)
    (hc : c ≠ 0) (hback : c = 8 → (d.terms t).cursor ≠ ⟨0, 0⟩) :
    Displays t (printByte s c) (d.writtenChar (d.screenPage t) t c) := by
  rw [printByte]
  by_cases h8 : c = 8
  · subst h8
    rw [if_pos rfl]
    exact h.rub (hback rfl)
  · obtain ⟨o, ho⟩ : ∃ o, print? c = some o := by
      rw [print?, if_neg hc]
      split
      · exact ⟨_, rfl⟩
      split
      · exact ⟨_, rfl⟩
      · exact ⟨_, rfl⟩
    rw [if_neg h8, ho]
    exact h.writtenChar ht h3 h8 ho

/-- **A text.** -/
lemma Displays.writtenText {page : ℕ} (h : Displays t s d) (ht : VideoTables d.paging)
    (h3 : t < numTtys) (hpage : page = d.screenPage t) (hstays : (d.terms t).cursor.Stays cs) :
    Displays t (printText s cs) (d.written page t cs) ∧ OnScreen t d (d.written page t cs) := by
  induction cs generalizing s d with
  | nil => exact ⟨h, OnScreen.refl t d⟩
  | cons c cs ih =>
    obtain ⟨hback, hrest⟩ := hstays
    rw [Display.written, printText, List.foldl_cons, List.foldl_cons]
    by_cases h0 : c = 0
    · subst h0
      rw [if_pos rfl]
      exact ih h ht hpage hrest
    · have hon := writtenChar_on ht h3 c hpage
      have hshows := h.writtenByte ht h3 h0 hback
      have hcursor := writtenChar_cursor h0 page t d
      rw [← hpage] at hshows
      rw [if_neg h0]
      obtain ⟨hall, hon'⟩ := ih hshows (hon.paging ▸ ht) (hpage.trans (hon.screenPage t).symm)
        (hcursor ▸ hrest)
      exact ⟨hall, hon.trans hon'⟩

/-! ### Calls that return -/

/-- The tables of `init_paging`, as far as the screens go: no page behind them is there. -/
structure ScreenTables (pg : Paging) : Prop extends VideoTables pg where
  beyond : ∀ i, 0xBC ≤ i → i < 1024 → (pg.pageTable0 i).present = false

lemma ScreenTables.writePatch (ht : ScreenTables d.paging) : ScreenTables d.writePatch.paging := by
  refine ⟨ht.toVideoTables.writePatch, fun i hle hlt => ?_⟩
  obtain ⟨table, heq, hcases⟩ := writePatch_eq d
  rw [heq]
  rcases hcases with rfl | ⟨-, -, rfl⟩
  · exact ht.beyond i hle hlt
  · have hne : i ≠ videoMemAddr := by
      rw [videoMemAddr]
      omega
    have hsame : setPteAddr videoMemAddr (0xB9 + d.scheduledTerm) d.paging.pageTable0 i =
      d.paging.pageTable0 i := Function.update_of_ne hne ..
    exact (congrArg Pte.present hsame).trans (ht.beyond i hle hlt)

/-- A backspace at the first position stores in row 255, where no page is: the call does not
return. -/
lemma writeChar_faults (visible : Bool) (ht : ScreenTables d.paging)
    (h0 : (d.terms t).cursor = ⟨0, 0⟩) : ∃ d₁, d.writeChar visible t 8 = .error d₁ := by
  have hcursor := cursorBefore_cursor 8 t d
  have hedge : Cursor.back ⟨0, 0⟩ = ⟨255, 79⟩ := rfl
  rw [if_pos rfl, h0, hedge] at hcursor
  have hpaging := (cursorBefore_on 8 t d).paging
  have hchar : d.writeChar visible t 8 = (do
      let d₁ ← put visible (glyph 8) ((d.cursorBefore 8 t).screenSeek ⟨255, 79⟩)
      return cursorAfter 8 ⟨255, 79⟩ t d₁) := by
    rw [writeChar, if_neg (by decide), ← hcursor]
  rw [hchar]
  generalize hd₁ : (d.cursorBefore 8 t).screenSeek ⟨255, 79⟩ = d₁
  have htables : ScreenTables d₁.paging := by
    rw [← hd₁]
    exact hpaging.symm ▸ ht
  have hcell : (termCols * d₁.screenY + d₁.screenX) * 2 = 40958 := by
    have hx : d₁.screenX = 79 := hd₁ ▸ rfl
    have hy : d₁.screenY = 255 := hd₁ ▸ rfl
    rw [hx, hy, termCols]
  have hfault : ∀ video, (d₁.paging.pageTable0 ((video + 40958) / 4096)).present = false →
      d₁.putcAt video 0x20 attrib = .error d₁ := by
    intro video habsent
    rw [putcAt, if_neg (by decide), if_neg (by decide), if_neg (by decide), hcell]
    dsimp only
    rw [poke_absent 0x20 habsent]
    rfl
  have hput : d₁.put visible 0x20 = .error d₁ := by
    rw [put]
    split
    · exact hfault physVidmemAddr (htables.beyond 0xC0 (by decide) (by decide))
    · exact hfault vidmem (htables.beyond 0xC1 (by decide) (by decide))
  have hglyph : glyph 8 = 0x20 := rfl
  rw [hglyph, hput]
  exact ⟨d₁, rfl⟩

/-- The backspaces of a text whose loop ends have stayed on the screen. -/
lemma writeLoop_stays (visible : Bool) (ht : ScreenTables d.paging)
    (hcur : (d.terms t).cursor.InRange) (hloop : d.writeLoop visible t cs = .ok d') :
    (d.terms t).cursor.Stays cs := by
  induction cs generalizing d with
  | nil => trivial
  | cons c cs ih =>
    rw [writeLoop] at hloop
    have hback : c = 8 → (d.terms t).cursor ≠ ⟨0, 0⟩ := by
      rintro rfl h0
      obtain ⟨d₁, hfault⟩ := writeChar_faults visible ht h0
      rw [hfault] at hloop
      exact absurd hloop (by simp [bind, Except.bind])
    obtain ⟨hchar, hwrote⟩ := writeChar_wrote visible ht.toVideoTables hcur hback
    rw [hchar] at hloop
    generalize d.written (d.writeFrame visible) t [c] = d₁ at hwrote hloop
    have hself : (d₁.terms t).cursor = (d.terms t).cursor.step c := hwrote.self
    have hrest := ih (hwrote.drawn.paging ▸ ht) (hself ▸ Cursor.step_inRange hcur hback) hloop
    exact ⟨hback, hself ▸ hrest⟩

/-! ### The cursor registers -/

/-- The position of the cursor of the visible terminal. -/
def position (d : Display) : ℕ :=
  (d.terms d.visibleTerm).cursor.row * termCols + (d.terms d.visibleTerm).cursor.col

lemma position_lt (h : (d.terms d.visibleTerm).cursor.InRange) : d.position < 65536 := by
  obtain ⟨hrow, hcol⟩ := h
  rw [position, termCols]
  omega

/-- No byte of a text sends anything to the registers. -/
lemma writtenChar_crtc (page t : ℕ) (c : UInt8) (d : Display) :
    (d.writtenChar page t c).crtc = d.crtc := by
  have hbefore : (d.cursorBefore c t).crtc = d.crtc := by
    rw [cursorBefore, cursorDecrement]
    split
    · split
      · rfl
      · rfl
    · rfl
  have hglyph : ∀ d₁ : Display, (d₁.drawGlyph page (glyph c)).crtc = d₁.crtc := by
    intro d₁
    rw [drawGlyph]
    split
    · rfl
    · rfl
  have hafter : ∀ (p : Cursor) (d₁ : Display), (d₁.cursorAfter c p t).crtc = d₁.crtc := by
    intro p d₁
    rw [cursorAfter_eq]
    split
    · rfl
    split
    · rfl
    · rfl
  rw [Display.writtenChar, hafter, hglyph, ← hbefore]
  rfl

lemma written_crtc (page t : ℕ) (cs : List UInt8) (d : Display) :
    (d.written page t cs).crtc = d.crtc := by
  induction cs generalizing d with
  | nil => rfl
  | cons c cs ih =>
    rw [Display.written, List.foldl_cons]
    refine (ih _).trans ?_
    split
    · rfl
    · exact writtenChar_crtc page t c d

/-! ### One call -/

/-- `VIDMEM` maps to the screen of the scheduled terminal, once `terminal_write` has patched it. -/
def InSync (d : Display) : Prop := d.writePatch.frame videoMemAddr = d.screenPage d.scheduledTerm

/-- What a call of `terminal_write` leaves that returns, with the bytes `cs` for the terminal `t`. -/
structure Called (t : ℕ) (cs : List UInt8) (d d' : Display) : Prop where
  visibleTerm : d'.visibleTerm = d.visibleTerm
  scheduledTerm : d'.scheduledTerm = d.scheduledTerm
  tables : ScreenTables d'.paging
  input : ∀ u, (d'.terms u).input = (d.terms u).input
  others : ∀ u, u ≠ t → SameScreen u d d'
  shows : ∀ s, Displays t s d → Displays t (printText s cs) d'

/-- **A call that returns.** -/
lemma terminalWrite_called {fd r nbytes : Int32} {buf : Buf} (ht : ScreenTables d.paging)
    (h3 : writeTarget fd d < numTtys) (hcur : (d.terms (writeTarget fd d)).cursor.InRange)
    (hsync : fd ≠ 100 → InSync d) (hcall : terminalWrite fd (some buf) nbytes d = .ok (r, d')) :
    Called (writeTarget fd d) (callBytes (buf, nbytes)) d d' ∧
      (if fd = 100 ∨ d.scheduledTerm = d.visibleTerm then
        d'.crtc = (d'.terms (writeTarget fd d)).cursor.row * termCols +
          (d'.terms (writeTarget fd d)).cursor.col
      else d'.crtc = d.crtc) := by
  have hvisible := writePatch_visibleTerm d
  have hscheduled := writePatch_scheduledTerm d
  have hterms := writePatch_terms d
  have hcrtc := writePatch_crtc d
  have hsame := fun u => writePatch_same u d
  have ht₁ := ht.writePatch
  have hpage : d.writePatch.writeFrame (fd = 100) = d.writePatch.screenPage (writeTarget fd d) := by
    rw [writeFrame, writeTarget]
    by_cases hfd : fd = 100
    · rw [if_pos (decide_eq_true hfd), if_pos hfd, screenPage, if_pos rfl]
      exact ht₁.fixed.2
    · rw [if_neg (by simp [hfd]), if_neg hfd, hsync hfd, screenPage, screenPage, hvisible, hscheduled]
  rw [terminalWrite_run] at hcall
  generalize writeTarget fd d = t at h3 hcur hpage hcall ⊢
  generalize d.writePatch = d₁ at hvisible hscheduled hterms hcrtc hsame ht₁ hpage hcall
  rw [← hterms] at hcur
  cases hloop : writeLoop (fd = 100) t ((List.range nbytes.toInt.toNat).map buf) d₁ with
  | error d₂ =>
    rw [hloop] at hcall
    exact absurd hcall (by simp [Except.map])
  | ok d₂ =>
    rw [hloop] at hcall
    obtain ⟨-, rfl⟩ := Prod.mk.inj (Except.ok.inj hcall)
    have hstays := writeLoop_stays (fd = 100) ht₁ hcur hloop
    obtain ⟨hloop', hwrote⟩ := writeLoop_wrote (fd = 100) ht₁.toVideoTables hcur hstays
    rw [hloop] at hloop'
    obtain rfl := Except.ok.inj hloop'
    have hdrawn := hwrote.drawn
    have hinrange := hwrote.self ▸ hstays.inRange hcur
    have hsent := written_crtc (d₁.writeFrame (fd = 100)) t
      ((List.range nbytes.toInt.toNat).map buf) d₁
    have htext := fun s (hs : Displays t s d₁) =>
      hs.writtenText ht₁.toVideoTables h3 hpage hstays
    rw [callBytes]
    generalize d₁.written (d₁.writeFrame (fd = 100)) t ((List.range nbytes.toInt.toNat).map buf) = d₂
      at hdrawn hinrange hsent htext ⊢
    have hon : OnScreen t d₁ d₂ := (htext _ (displays_screen hcur)).2
    have hbranch : (d₂.scheduledTerm = d₂.visibleTerm) = (d.scheduledTerm = d.visibleTerm) := by
      rw [hon.scheduledTerm, hon.visibleTerm, hscheduled, hvisible]
    -- the registers are no part of what the call leaves on the screens
    have hcalled : ∀ crtc, Called t ((List.range nbytes.toInt.toNat).map buf) d
        { d₂ with crtc := crtc } := by
      intro crtc
      refine ⟨hon.visibleTerm.trans hvisible, hon.scheduledTerm.trans hscheduled, ?_, fun u => ?_,
        fun u hu => ?_, fun s hs => ?_⟩
      · exact hon.paging.symm ▸ ht₁
      · exact (hdrawn.input u).trans (by rw [hterms])
      · have hrest := (hsame u).trans (hon.sameScreen hu)
        exact ⟨hrest.cursor, hrest.rows⟩
      · have hshows := (htext s (hs.same (hsame t))).1
        exact ⟨hshows.cursor, hshows.cell⟩
    simp only [hbranch]
    split
    · refine ⟨hcalled _, Nat.mod_eq_of_lt ?_⟩
      obtain ⟨hrow, hcol⟩ := hinrange
      rw [termCols]
      omega
    · exact ⟨hcalled d₂.crtc, hsent.trans hcrtc⟩

end

end Display

/-! ### Operations -/

/-- A switch to a terminal, a call of `terminal_write`, or a tick. -/
inductive TermOp
  | switch (newTerm : ℕ)
  | write (fd : Int32) (buf : Option Buf) (nbytes : Int32)
  | tick

namespace TermOp

def run : TermOp → Display → Except Display Display
  | .switch newTerm, d => .ok (d.termSwitch newTerm)
  | .write fd buf nbytes, d => (d.terminalWrite fd buf nbytes).map Prod.snd
  | .tick, d => .ok d.pitAdvance

/-- What an operation writes to the terminal `t`. -/
def text (t : ℕ) : TermOp → Display → List UInt8
  | .write fd (some buf) nbytes, d =>
    if t = d.writeTarget fd then Display.callBytes (buf, nbytes) else []
  | _, _ => []

/-- An operation sends a position to the cursor registers: one that shows another terminal, or
writes to the visible one. -/
def Sends : TermOp → Display → Prop
  | .switch newTerm, d => newTerm ≠ d.visibleTerm
  | .write fd buf _, d => buf.isSome ∧ (fd = 100 ∨ d.scheduledTerm = d.visibleTerm)
  | .tick, _ => False

/-- A switch is to one of the terminals, and a process that writes has `VIDMEM` mapped to the
screen of its terminal. -/
def Allowed : TermOp → Display → Prop
  | .switch newTerm, _ => newTerm < numTtys
  | .write fd _ _, d => fd ≠ 100 → d.InSync
  | .tick, _ => True

instance : (o : TermOp) → (d : Display) → Decidable (o.Sends d)
  | .switch _, _ => inferInstanceAs (Decidable (_ ≠ _))
  | .write _ _ _, _ => inferInstanceAs (Decidable (_ ∧ (_ ∨ _)))
  | .tick, _ => inferInstanceAs (Decidable False)

end TermOp

namespace Display

/-- The page tables are those of `init_paging`, the numbers of the terminals are in their range,
and the cursors on their screens. -/
structure Sound (d : Display) : Prop where
  tables : ScreenTables d.paging
  visible : d.visibleTerm < numTtys
  scheduled : d.scheduledTerm < numTtys
  cursors : ∀ t < numTtys, (d.terms t).cursor.InRange

/-- What an operation leaves: its text on the screens, the lines that are typed, and the position
of the visible cursor in the registers if it sends one or they held it before. -/
structure Done (o : TermOp) (d d' : Display) : Prop where
  sound : d'.Sound
  input : ∀ t, (d'.terms t).input = (d.terms t).input
  shows : ∀ t < numTtys, ∀ s, Displays t s d → Displays t (printText s (o.text t d)) d'
  registers : o.Sends d ∨ d.crtc = d.position → d'.crtc = d'.position

variable {d d' : Display}

/-- A switch. -/
lemma Sound.switch (h : d.Sound) {newTerm : ℕ} (h3 : newTerm < numTtys) :
    Done (.switch newTerm) d (d.termSwitch newTerm) := by
  have hsame := termSwitch_same h.tables.toVideoTables h.visible h3
  by_cases hne : newTerm = d.visibleTerm
  · rw [termSwitch, if_pos hne]
    exact ⟨h, fun _ => rfl, fun _ _ _ hs => hs, fun hor => hor.resolve_left fun hno => hno hne⟩
  obtain ⟨hscheduled, hvisible, hterms, hpaging, -⟩ := termSwitch_fields hne
  have hcursors : ∀ t < numTtys, ((d.termSwitch newTerm).terms t).cursor.InRange := by
    rw [hterms]
    exact h.cursors
  refine ⟨⟨hpaging.symm ▸ h.tables, hvisible.symm ▸ h3, hscheduled.symm ▸ h.scheduled, hcursors⟩,
    fun t => by rw [hterms], fun t _ s hs => hs.same (hsame t), fun _ => ?_⟩
  have hpos := position_lt (hcursors _ (hvisible.symm ▸ h3))
  have hcrtc : (d.termSwitch newTerm).crtc =
      ((d.terms newTerm).cursor.row * termCols + (d.terms newTerm).cursor.col) % 65536 := by
    rw [termSwitch, if_neg hne]
    rfl
  have hposition : (d.termSwitch newTerm).position =
      (d.terms newTerm).cursor.row * termCols + (d.terms newTerm).cursor.col := by
    rw [position, hvisible, hterms]
  rw [hcrtc, ← hposition, Nat.mod_eq_of_lt hpos]

/-- A tick. -/
lemma Sound.tick (h : d.Sound) : Done .tick d d.pitAdvance := by
  have hadvanced := pitAdvance_advanced d
  have hcrtc : d.pitAdvance.crtc = d.crtc := by
    rw [pitAdvance]
    dsimp only
    split
    · rfl
    · rfl
  have hposition : d.pitAdvance.position = d.position := by
    rw [position, position, hadvanced.visibleTerm, hadvanced.terms]
  refine ⟨⟨⟨?_, fun i hle hlt => ?_⟩, hadvanced.visibleTerm.symm ▸ h.visible, ?_, ?_⟩,
    fun t => by rw [hadvanced.terms], fun t _ s hs => hs.same (hadvanced.sameScreen t), fun hor => ?_⟩
  · rw [hadvanced.paging]
    exact h.tables.toVideoTables.setAddr _ _
  · have hne : i ≠ videoMemAddr := by
      rw [videoMemAddr]
      omega
    have hsame : d.pitAdvance.paging.pageTable0 i = d.paging.pageTable0 i := by
      rw [hadvanced.paging]
      exact Function.update_of_ne hne ..
    rw [hsame]
    exact h.tables.beyond i hle hlt
  · rw [hadvanced.scheduledTerm]
    exact Nat.mod_lt _ (by decide)
  · rw [hadvanced.terms]
    exact h.cursors
  · rw [hcrtc, hposition]
    exact hor.resolve_left id

/-- A call that returns. -/
lemma Sound.write (h : d.Sound) {fd nbytes : Int32} {buf : Option Buf}
    (hsync : fd ≠ 100 → d.InSync)
    (hrun : (TermOp.write fd buf nbytes).run d = .ok d') : Done (.write fd buf nbytes) d d' := by
  rw [TermOp.run] at hrun
  cases hcall : d.terminalWrite fd buf nbytes with
  | error d₁ =>
    rw [hcall] at hrun
    exact absurd hrun (by simp [Except.map])
  | ok x =>
    obtain ⟨r, d₁⟩ := x
    rw [hcall] at hrun
    obtain rfl : d₁ = d' := Except.ok.inj hrun
    have hvisible := writePatch_visibleTerm d
    have hscheduled := writePatch_scheduledTerm d
    have hterms := writePatch_terms d
    cases buf with
    | none =>
      -- the patch is all that is done
      obtain ⟨-, rfl⟩ := Prod.mk.inj (Except.ok.inj hcall)
      refine ⟨⟨h.tables.writePatch, hvisible.symm ▸ h.visible, hscheduled.symm ▸ h.scheduled,
        hterms.symm ▸ h.cursors⟩, fun t => by rw [hterms],
        fun t _ s hs => hs.same (writePatch_same t d), fun hor => ?_⟩
      have hsynced : d.crtc = d.position := hor.resolve_left fun hno => absurd hno.1 (by simp)
      rw [writePatch_crtc, hsynced, position, position, hvisible, hterms]
    | some buf =>
      have htarget : d.writeTarget fd = if fd = 100 then d.visibleTerm else d.scheduledTerm := by
        rw [writeTarget, hvisible, hscheduled]
      have h3 : d.writeTarget fd < numTtys := by
        rw [htarget]
        split
        · exact h.visible
        · exact h.scheduled
      obtain ⟨hcalled, hregisters⟩ :=
        terminalWrite_called h.tables h3 (h.cursors _ h3) hsync hcall
      have hshows : ∀ t < numTtys, ∀ s, Displays t s d →
          Displays t (printText s ((TermOp.write fd (some buf) nbytes).text t d)) d₁ := by
        intro t _ s hs
        rw [TermOp.text]
        split
        · rename_i ht
          subst ht
          exact hcalled.shows s hs
        · rename_i hne
          exact hs.same (hcalled.others t hne)
      refine ⟨⟨hcalled.tables, hcalled.visibleTerm.symm ▸ h.visible,
        hcalled.scheduledTerm.symm ▸ h.scheduled, fun t ht => ?_⟩, hcalled.input, hshows,
        fun hor => ?_⟩
      · exact (hshows t ht _ (displays_screen (h.cursors t ht))).inRange
      · split at hregisters
        · -- the text was for the visible terminal
          rename_i hown
          have hsame : d.writeTarget fd = d₁.visibleTerm := by
            rw [htarget, hcalled.visibleTerm]
            split
            · rfl
            · rename_i hfd
              exact hown.resolve_left hfd
          rw [hregisters, hsame, position]
        · rename_i hown
          have hsynced : d.crtc = d.position := hor.resolve_left fun hsends => hown hsends.2
          have hne : d.visibleTerm ≠ d.writeTarget fd := by
            rw [htarget, if_neg fun hfd => hown (Or.inl hfd)]
            exact fun heq => hown (Or.inr heq.symm)
          rw [hregisters, hsynced, position, position, hcalled.visibleTerm,
            (hcalled.others _ hne).cursor]

/-- **One operation.** -/
lemma Sound.run (h : d.Sound) {o : TermOp} (hok : o.Allowed d) (hrun : o.run d = .ok d') :
    Done o d d' := by
  cases o with
  | switch newTerm =>
    obtain rfl := Except.ok.inj hrun
    exact h.switch hok
  | write fd buf nbytes => exact h.write hok hrun
  | tick =>
    obtain rfl := Except.ok.inj hrun
    exact h.tick

end Display

/-- The display at boot, whatever was in memory. -/
lemma Display.sound_boot (l : Layout) (pg : Paging) (vram : ℕ → ℕ → UInt8) (mem : ℤ → Pcb) :
    (entryState l pg vram mem).toDisplay.Sound := by
  refine ⟨⟨tables_boot l pg vram mem, fun i hle hlt => ?_⟩, (by decide : 0 < 3), (by decide : 2 < 3),
    fun _ _ => ⟨Nat.zero_lt_succ _, Nat.zero_lt_succ _⟩⟩
  have hpage := initPageTable0_apply pg.pageTable0 hlt
  rw [if_neg (by omega), if_neg (by omega)] at hpage
  exact congrArg Pte.present hpage

/-! ### Sessions -/

/-- A display, what was written to every terminal since the start, and whether a position was sent
to the cursor registers since then.  No code reads the last two. -/
structure Session where
  display : Display
  written : ℕ → List UInt8
  sent : Bool

namespace Session

/-- Nothing has been done. -/
def start (d : Display) : Session := ⟨d, fun _ => [], false⟩

/-- An operation with its record; a call that faults is none. -/
def step (o : TermOp) (S : Session) : Option Session :=
  match o.run S.display with
  | .ok d => some ⟨d, fun t => S.written t ++ o.text t S.display, S.sent || o.Sends S.display⟩
  | .error _ => none

lemma step_eq {o : TermOp} {S : Session} {d : Display} (h : o.run S.display = .ok d) :
    S.step o = some
      ⟨d, fun t => S.written t ++ o.text t S.display, S.sent || o.Sends S.display⟩ := by
  rw [step, h]

/-- What holds along a session that started on the display `d₀`. -/
structure Kept (d₀ : Display) (S : Session) : Prop where
  sound : S.display.Sound
  input : ∀ t, (S.display.terms t).input = (d₀.terms t).input
  shows : ∀ t < numTtys,
    Display.Displays t (Display.printText (d₀.screen t) (S.written t)) S.display
  registers : S.sent = true ∨ d₀.crtc = d₀.position → S.display.crtc = S.display.position

lemma Kept.step {d₀ : Display} {S S' : Session} {o : TermOp} (h : Kept d₀ S)
    (hok : o.Allowed S.display) (hs : S.step o = some S') : Kept d₀ S' := by
  rw [Session.step] at hs
  cases hrun : o.run S.display with
  | error d =>
    rw [hrun] at hs
    exact absurd hs (by simp)
  | ok d =>
    rw [hrun] at hs
    obtain rfl := Option.some.inj hs
    have hdone := h.sound.run hok hrun
    refine ⟨hdone.sound, fun t => (hdone.input t).trans (h.input t), fun t ht => ?_, fun hor => ?_⟩
    · have hshows := hdone.shows t ht _ (h.shows t ht)
      rw [Display.printText, Display.printText, ← List.foldl_append] at hshows
      exact hshows
    · refine hdone.registers ?_
      rcases hor with hsent | hsynced
      · rw [Bool.or_eq_true, decide_eq_true_iff] at hsent
        exact hsent.symm.imp_right fun hbefore => h.registers (Or.inl hbefore)
      · exact Or.inr (h.registers (Or.inr hsynced))

end Session

/-- **Screens are kept.**  After any switches, calls of `terminal_write` that return and ticks, the
screen of every terminal is what its own texts make of the one at the start, and what was written
to it last, if it is drawn as it is, stands before its cursor; the lines that are typed are those
of the start; another switch changes no screen, no cursor and no line; and the registers hold the
position of the visible cursor if they held it at the start or one of the operations sent one. -/
theorem switching_keeps_screens (d₀ : Display) (h₀ : d₀.Sound) {S : Session}
    (h : Runs.Reach (fun o S => Session.step o S) (fun o S => o.Allowed S.display)
      (Session.start d₀) S) :
    (∀ t < numTtys, (S.display.terms t).input = (d₀.terms t).input ∧
      Display.Displays t (Display.printText (d₀.screen t) (S.written t)) S.display ∧
      ∀ c ∈ (S.written t).getLast?, Printable c → (S.display.screen t).last = (c, attrib)) ∧
    (∀ newTerm < numTtys, ∀ t, Display.SameScreen t S.display (S.display.termSwitch newTerm) ∧
      ((S.display.termSwitch newTerm).terms t).input = (S.display.terms t).input) ∧
    (S.sent = true ∨ d₀.crtc = d₀.position → S.display.crtc = S.display.position) := by
  have hkept : Session.Kept d₀ S := by
    refine h.invariant (P := Session.Kept d₀) ?_ fun o S S' hS hok hs => hS.step hok hs
    refine ⟨h₀, fun _ => rfl, fun t ht => Display.displays_screen (h₀.cursors t ht), fun hor => ?_⟩
    exact hor.resolve_left Bool.false_ne_true
  refine ⟨fun t ht => ⟨hkept.input t, hkept.shows t ht, fun c hc hprintable => ?_⟩,
    fun newTerm h3 t => ⟨?_, ?_⟩, hkept.registers⟩
  · have hshows := hkept.shows t ht
    obtain ⟨pre, hpre⟩ := List.getLast?_eq_some_iff.1 (Option.mem_def.1 hc)
    rw [hpre, Display.printText, List.foldl_append, List.foldl_cons, List.foldl_nil] at hshows
    rw [hshows.screen_eq]
    exact Display.printByte_last hprintable _
  · exact Display.termSwitch_same hkept.sound.tables.toVideoTables hkept.sound.visible h3 t
  · exact (hkept.sound.switch h3).input t

/-- `A` is written to the visible terminal, then another one is shown. -/
theorem switching_keeps_screens_boot : ∃ S, Runs.Reach (fun o S => Session.step o S)
      (fun o S => o.Allowed S.display) (Session.start sampleBoot.toDisplay) S ∧
    S.display.visibleTerm = 1 ∧ (S.display.screen 0).last = (0x41, attrib) ∧
    S.display.crtc = S.display.position := by
  have hsound : sampleBoot.toDisplay.Sound := Display.sound_boot ..
  have htick := hsound.tick
  have hsched : sampleBoot.toDisplay.pitAdvance.scheduledTerm = 0 := rfl
  have hcur := htick.sound.cursors 0 (by decide)
  have hw : Display.Writes 1 0 sampleBoot.toDisplay.pitAdvance := ⟨rfl, by decide +kernel⟩
  obtain ⟨d, hcall, -⟩ := (Display.displays_screen hcur).terminalWrite
    htick.sound.tables.toVideoTables (by decide) hw (fun _ => 0x41, 1) (by decide)
  obtain ⟨hw', htarget⟩ := hw.writePatch
  have hrun : (TermOp.write 1 (some fun _ => 0x41) 1).run sampleBoot.toDisplay.pitAdvance = .ok d :=
    congrArg (Except.map Prod.snd) hcall
  have hsync : (TermOp.write 1 (some fun _ => 0x41) 1).Allowed sampleBoot.toDisplay.pitAdvance := by
    intro _
    rw [Display.InSync, hw'.2, hsched, Display.screenPage, Display.screenPage,
      Display.writePatch_visibleTerm]
  let S₁ : Session := ⟨sampleBoot.toDisplay.pitAdvance, fun _ => [], false⟩
  have h₁ : (Session.start sampleBoot.toDisplay).step .tick = some S₁ := Session.step_eq rfl
  have h₂ := Session.step_eq (S := S₁) hrun
  have h₃ := fun S : Session => Session.step_eq (S := S) (o := .switch 1) rfl
  have hreach₁ : Runs.Reach (fun o S => Session.step o S) (fun o S => o.Allowed S.display)
      (Session.start sampleBoot.toDisplay) S₁ := .single (e := TermOp.tick) trivial h₁
  have hallowed : (TermOp.switch 1).Allowed d := (by decide : 1 < 3)
  have hreach := (hreach₁.tail hsync h₂).tail hallowed (h₃ _)
  have hkept := switching_keeps_screens sampleBoot.toDisplay hsound hreach
  refine ⟨_, hreach, ?_, (hkept.1 0 (by decide)).2.2 0x41 ?_ ?_, hkept.2.2 (Or.inr rfl)⟩
  · change (d.termSwitch 1).visibleTerm = 1
    by_cases hne : 1 = d.visibleTerm
    · rw [Display.termSwitch, if_pos hne, ← hne]
    · exact (Display.termSwitch_fields hne).2.1
  · change 0x41 ∈ ([] ++ (if 0 = Display.writeTarget 1 sampleBoot.toDisplay.pitAdvance then
      [0x41] else []) ++ [] : List UInt8).getLast?
    rw [if_pos htarget.symm]
    exact Option.mem_def.2 rfl
  · exact ⟨by decide, by decide, by decide, by decide, by decide⟩

/-- The registers hold what the boot loader left in them, and the visible terminal is chosen
again: nothing is sent. -/
theorem registers_not_sent : ¬∀ d₀ : Display, d₀.Sound → ∀ (o : TermOp) (S : Session),
    o.Allowed d₀ → (Session.start d₀).step o = some S → S.display.crtc = S.display.position := by
  intro h
  have hboot : sampleBoot.toDisplay.Sound := Display.sound_boot ..
  have hsound : Display.Sound { sampleBoot.toDisplay with crtc := 5 } :=
    ⟨hboot.tables, hboot.visible, hboot.scheduled, hboot.cursors⟩
  exact absurd (h _ hsound (.switch 0) _ (by decide : 0 < 3) rfl) (by decide)

end WnajOS
