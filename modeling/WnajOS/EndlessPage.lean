import WnajOS.Library.Teletype
import WnajOS.Writing

/-!
# The screen of a terminal is the end of an endless page

A terminal is a teletype: `terminal_write` prints its text on a page that goes on forever, and the 24
rows of the screen are the last ones of it.  The code keeps the 24 rows only and moves them with
`memmove` where the page would go on.  It is the same for both paths through `putc`, for the
visible terminal and for a hidden one, and however the text is split over calls.
-/

namespace WnajOS

open Teletype

/-! ### What `pan` copies -/

/-- The loop of `pan` over the rows that are blanked, with `n` rows done. -/
def whiteoutRows : ℕ → Buf → Buf
  | 0, page => page
  | n + 1, page =>
    let mem := (termRows - 1 - n) * termCols * 2
    fun i =>
      if mem ≤ i ∧ i < mem + 2 * termCols then Display.whiteout (i - mem) else whiteoutRows n page i

lemma whiteoutRows_apply {n : ℕ} (hn : n ≤ termRows) (page : Buf) (i : ℕ) :
    whiteoutRows n page i =
      if (termRows - n) * termCols * 2 ≤ i ∧ i < termRows * termCols * 2 then Display.whiteout i
      else page i := by
  induction n with
  | zero =>
    rw [whiteoutRows, if_neg]
    rw [Nat.sub_zero]
    omega
  | succ n ih =>
    have hrow : termRows - 1 - n = termRows - (n + 1) := by omega
    have hnext : (termRows - n) * termCols * 2 =
        (termRows - (n + 1)) * termCols * 2 + 2 * termCols := by
      have hsub : termRows - n = termRows - (n + 1) + 1 := by omega
      rw [hsub, Nat.add_mul, Nat.add_mul, Nat.one_mul, Nat.mul_comm termCols 2]
    have hle : (termRows - n) * termCols * 2 ≤ termRows * termCols * 2 :=
      Nat.mul_le_mul_right 2 (Nat.mul_le_mul_right termCols (Nat.sub_le _ _))
    rw [whiteoutRows]
    dsimp only
    rw [ih (by omega), hrow]
    rw [hnext] at hle ⊢
    generalize hmem : (termRows - (n + 1)) * termCols * 2 = mem at hle ⊢
    by_cases hin : mem ≤ i ∧ i < mem + 2 * termCols
    · rw [if_pos hin, if_pos (by omega), Display.whiteout, Display.whiteout]
      -- the row starts at an even offset
      have heven : (i - mem) % 2 = i % 2 := by omega
      rw [heven]
    · rw [if_neg hin]
      exact if_congr (by omega) rfl rfl

/-- **What `pan` does to a page**: the `memmove` and the loop. -/
theorem panPage_eq {rows : ℕ} (h : rows ≤ termRows) (page : Buf) : Display.panPage rows page =
    whiteoutRows rows (memmove 0 (rows * termCols * 2) (2 * (termRows - rows) * termCols) page) := by
  have hlen : 2 * (termRows - rows) * termCols = (termRows - rows) * termCols * 2 := by ring
  funext i
  rw [whiteoutRows_apply h, memmove_apply, Display.panPage, hlen]
  by_cases hmoved : i < (termRows - rows) * termCols * 2
  · rw [if_pos hmoved, if_neg (by omega), if_pos (by omega), Nat.sub_zero, Nat.add_comm]
  · rw [if_neg hmoved]
    by_cases hblank : i < termRows * termCols * 2
    · rw [if_pos hblank, if_pos (by omega)]
    · rw [if_neg hblank, if_neg (by omega), if_neg (by omega)]

/-! ### Cells -/

/-- A cell of the screen: a byte and its colour. -/
abbrev Cell := UInt8 × UInt8

/-- An empty cell. -/
def blankCell : Cell := (0x20, attrib)

/-- What a byte prints; 0 prints nothing. -/
def print? (c : UInt8) : Option (Op Cell) :=
  if c = 0 then none
  else if c = 10 ∨ c = 13 then some .newline
  else if c = 9 then some (.put (unprintable, attrib))
  else some (.put (c, attrib))

instance : NeZero termRows := ⟨by decide⟩

namespace Display

/-- The offset of a cell in the page of a screen. -/
def cellAt (row col : ℕ) : ℕ := (termCols * row + col) * 2

/-- The terminal `t` displays the screen `s`, with its cursor where the next symbol is printed. -/
structure Displays (t : ℕ) (s : Screen Cell termRows termCols) (d : Display) : Prop where
  cursor : (d.terms t).cursor = ⟨s.row, s.col⟩
  cell : ∀ i j, s.cell i j =
    (d.vram (d.screenPage t) (cellAt i j), d.vram (d.screenPage t) (cellAt i j + 1))

section

variable {t : ℕ} {s : Screen Cell termRows termCols} {d : Display} {c : UInt8}

lemma Displays.inRange (h : Displays t s d) : (d.terms t).cursor.InRange := by
  rw [h.cursor]
  exact ⟨s.row.isLt, s.col.isLt⟩

/-- `pan` moves the cells above the last row. -/
lemma panPage_moved (page : Buf) {i : ℕ} (h : i < 3680) : panPage panRows page i = page (i + 160) :=
  if_pos h

lemma panPage_blank (page : Buf) {i : ℕ} (h : 3680 ≤ i) (hlt : i < 3840) :
    panPage panRows page i = whiteout i :=
  (if_neg (Nat.not_lt.2 h)).trans (if_pos hlt)

/-- Two cells at the same offset are the same. -/
lemma cellAt_inj {i i' j j' : ℕ} (hj : j < termCols) (hj' : j' < termCols)
    (h : cellAt i j = cellAt i' j') : i = i' ∧ j = j' := by
  rw [cellAt, cellAt] at h
  rw [termCols] at h hj hj'
  omega

/-- **A symbol.**  `putc` fills the cell at the cursor. -/
lemma Displays.fill (h : Displays t s d) (g : UInt8) {d' : Display}
    (hcur : (d'.terms t).cursor = (d.terms t).cursor) (hpage : d'.screenPage t = d.screenPage t)
    (hvram : d'.vram = writeCell (d.screenPage t) ⟨s.row, s.col⟩ g d.vram) :
    Displays t (s.fill (g, attrib)) d' := by
  constructor
  · rw [hcur, h.cursor]
    rfl
  · intro i j
    rw [hpage, hvram, writeCell, Function.update_self, Screen.fill]
    change Function.update s.cell s.row (Function.update (s.cell s.row) s.col (g, attrib)) i j =
      (Function.update (Function.update (d.vram (d.screenPage t)) (cellAt s.row s.col) g)
          (cellAt s.row s.col + 1) attrib (cellAt i j),
        Function.update (Function.update (d.vram (d.screenPage t)) (cellAt s.row s.col) g)
          (cellAt s.row s.col + 1) attrib (cellAt i j + 1))
    have hodd : cellAt i j ≠ cellAt s.row s.col + 1 := by
      rw [cellAt, cellAt]
      omega
    by_cases hcell : cellAt i j = cellAt s.row s.col
    · -- the cell at the cursor
      obtain ⟨hi, hj⟩ := cellAt_inj j.isLt s.col.isLt hcell
      obtain rfl : i = s.row := Fin.ext hi
      obtain rfl : j = s.col := Fin.ext hj
      rw [Function.update_self, Function.update_self, Function.update_of_ne (by omega),
        Function.update_self, Function.update_self]
    · have hne : ¬(i = s.row ∧ j = s.col) := by
        rintro ⟨rfl, rfl⟩
        exact hcell rfl
      have hfirst : cellAt i j + 1 ≠ cellAt s.row s.col := by
        rw [cellAt, cellAt]
        omega
      have hsecond : cellAt i j + 1 ≠ cellAt s.row s.col + 1 := fun heq => hcell (Nat.succ.inj heq)
      rw [Function.update_of_ne hodd, Function.update_of_ne hcell, Function.update_of_ne hsecond,
        Function.update_of_ne hfirst, ← h.cell]
      by_cases hi : i = s.row
      · subst hi
        rw [Function.update_self, Function.update_of_ne fun hj => hne ⟨rfl, hj⟩]
      · rw [Function.update_of_ne hi]

/-- The cursor moves on the same screen. -/
lemma Displays.move (h : Displays t s d) (row : Fin termRows) (col : Fin termCols) :
    Displays t { s with row := row, col := col } (d.setCursor t ⟨row, col⟩) := by
  constructor
  · exact setCursor_cursor t d _
  · exact h.cell

/-- **The next row.**  Where the cursor would leave the screen, `pan` moves the rows. -/
lemma Displays.down (h : Displays t s d) (ht : VideoTables d.paging) (h3 : t < numTtys)
    (hnext : nextCursor c (d.terms t).cursor = ⟨(s.row + 1) % termRows, 0⟩) :
    Displays t (s.down blankCell)
      (if ((d.advance c t).terms t).cursor = ⟨0, 0⟩ then pan panRows t (d.advance c t)
        else d.advance c t) := by
  have hrow := s.row.isLt
  have hcursor : ((d.advance c t).terms t).cursor = ⟨(s.row + 1) % termRows, 0⟩ := by
    rw [advance, setCursor_cursor, hnext]
  rw [hcursor, Screen.down]
  by_cases hlt : s.row.val + 1 < termRows
  · rw [dif_pos hlt, if_neg]
    · rw [advance, hnext, Nat.mod_eq_of_lt hlt]
      exact h.move ⟨s.row.val + 1, hlt⟩ ⟨0, s.col.pos⟩
    · rw [Nat.mod_eq_of_lt hlt]
      intro heq
      exact absurd (congrArg Cursor.row heq) (Nat.succ_ne_zero _)
  · -- the last row
    have hlast : s.row.val + 1 = termRows := by omega
    rw [dif_neg hlt, if_pos (by rw [hlast, Nat.mod_self]), pan_eq]
    have hframe := pan_frame (d := d.advance c t) ht h3
    have hpage : (d.advance c t).screenPage t = d.screenPage t := rfl
    constructor
    · rw [home, setCursor_cursor]
      change (⟨23, 0⟩ : Cursor) = ⟨s.row.val, 0⟩
      rw [show s.row.val = 23 from Nat.succ.inj hlast]
    · intro i j
      have hi : i.val < 24 := i.isLt
      have hj : j.val < 80 := j.isLt
      have hcell : cellAt i j = (80 * i.val + j.val) * 2 := rfl
      change (if hi : i.val + 1 < termRows then s.cell ⟨i.val + 1, hi⟩ j else blankCell) =
        ((scroll panRows t (d.advance c t)).vram (d.screenPage t) (cellAt i j),
          (scroll panRows t (d.advance c t)).vram (d.screenPage t) (cellAt i j + 1))
      rw [scroll]
      dsimp only
      rw [hframe, hpage, Function.update_self]
      change _ = (panPage panRows (d.vram (d.screenPage t)) (cellAt i j),
        panPage panRows (d.vram (d.screenPage t)) (cellAt i j + 1))
      split
      · rename_i hi'
        have hi'' : i.val + 1 < 24 := hi'
        have hbelow : cellAt (i.val + 1) j = cellAt i j + 160 := by
          change (80 * (i.val + 1) + j.val) * 2 = (80 * i.val + j.val) * 2 + 160
          omega
        rw [panPage_moved _ (by omega), panPage_moved _ (by omega), h.cell ⟨i.val + 1, hi'⟩ j]
        dsimp only
        rw [hbelow, Nat.add_right_comm]
      · rename_i hi'
        have hi'' : ¬i.val + 1 < 24 := hi'
        have heven : cellAt i j % 2 = 0 ∧ (cellAt i j + 1) % 2 = 1 := by omega
        rw [panPage_blank _ (by omega) (by omega), panPage_blank _ (by omega) (by omega), whiteout,
          whiteout, heven.1, heven.2]
        rfl

/-- The next column, or the next row. -/
lemma Displays.next (h : Displays t s d) (ht : VideoTables d.paging) (h3 : t < numTtys)
    (hline : ¬(c = 10 ∨ c = 13)) : Displays t (s.next blankCell)
      (if ((d.advance c t).terms t).cursor = ⟨0, 0⟩ then pan panRows t (d.advance c t)
        else d.advance c t) := by
  have hcol := s.col.isLt
  rw [Screen.next]
  by_cases hlt : s.col.val + 1 < termCols
  · have hnext : nextCursor c (d.terms t).cursor = ⟨s.row, s.col.val + 1⟩ := by
      rw [nextCursor, if_neg hline, h.cursor]
      dsimp only
      rw [Nat.mod_eq_of_lt hlt, if_neg (Nat.succ_ne_zero _)]
    rw [dif_pos hlt, advance, setCursor_cursor, hnext, if_neg]
    · exact h.move s.row ⟨s.col.val + 1, hlt⟩
    · intro heq
      exact absurd (congrArg Cursor.col heq) (Nat.succ_ne_zero _)
  · -- the row is left as soon as its last column is filled
    have hlast : s.col.val + 1 = termCols := by omega
    rw [dif_neg hlt]
    refine h.down ht h3 ?_
    rw [nextCursor, if_neg hline, h.cursor]
    dsimp only
    rw [hlast, Nat.mod_self, if_pos rfl]

/-- **One byte** that is not a backspace. -/
lemma Displays.writtenChar (h : Displays t s d) (ht : VideoTables d.paging) (h3 : t < numTtys)
    (h8 : c ≠ 8) {o : Op Cell} (ho : print? c = some o) :
    Displays t (s.step blankCell o) (d.writtenChar (d.screenPage t) t c) := by
  have hbefore : d.cursorBefore c t = d := if_neg h8
  rw [Display.writtenChar, hbefore]
  rw [cursorAfter_eq, if_neg h8, h.cursor]
  rw [print?] at ho
  split at ho
  · exact absurd ho (by simp)
  split at ho
  · -- a new row: nothing is stored
    rename_i hline
    obtain rfl := Option.some.inj ho
    have hg : glyph c = 10 := (glyph_eq_line c).2 hline
    have hdrawn :
        Displays t s ((d.screenSeek ⟨s.row, s.col⟩).drawGlyph (d.screenPage t) (glyph c)) := by
      rw [drawGlyph, if_pos hg]
      exact ⟨h.cursor, h.cell⟩
    refine hdrawn.down ?_ h3 ?_
    · rw [drawGlyph_paging]
      exact ht
    · have hrow : s.row.val < 24 := s.row.isLt
      rw [nextCursor, if_pos hline, hdrawn.cursor]
      dsimp only
      rw [Nat.mod_eq_of_lt (a := s.row.val + 1) (b := 256) (by omega)]
  · rename_i hline
    have hg : glyph c ≠ 10 := fun hg => hline ((glyph_eq_line c).1 hg)
    have hsymbol : o = .put (glyph c, attrib) := by
      rw [glyph, if_neg h8, if_neg hline]
      split at ho
      · rename_i h9
        rw [if_pos h9]
        exact (Option.some.inj ho).symm
      · rename_i h9
        rw [if_neg h9]
        exact (Option.some.inj ho).symm
    subst hsymbol
    have hdrawn : Displays t (s.fill (glyph c, attrib))
        ((d.screenSeek ⟨s.row, s.col⟩).drawGlyph (d.screenPage t) (glyph c)) := by
      refine h.fill (glyph c) ?_ ?_ ?_
      · rw [drawGlyph_terms]
        rfl
      · rw [drawGlyph, if_neg hg]
        rfl
      · rw [drawGlyph, if_neg hg]
        rfl
    refine hdrawn.next ?_ h3 hline
    rw [drawGlyph_paging]
    exact ht

/-- **A text** without backspaces. -/
lemma Displays.written {cs : List UInt8} {page : ℕ} (h : Displays t s d)
    (ht : VideoTables d.paging) (h3 : t < numTtys) (hpage : page = d.screenPage t) (h8 : 8 ∉ cs) :
    Displays t (s.run blankCell (cs.filterMap print?)) (d.written page t cs) := by
  induction cs generalizing s d with
  | nil => exact h
  | cons c cs ih =>
    rw [List.mem_cons, not_or] at h8
    obtain ⟨hc, hcs⟩ := h8
    rw [Display.written, List.foldl_cons]
    by_cases h0 : c = 0
    · have hnone : print? c = none := if_pos h0
      rw [if_pos h0, List.filterMap_cons_none hnone]
      exact ih h ht hpage hcs
    · obtain ⟨o, ho⟩ : ∃ o, print? c = some o := by
        rw [print?, if_neg h0]
        split
        · exact ⟨_, rfl⟩
        split
        · exact ⟨_, rfl⟩
        · exact ⟨_, rfl⟩
      have hchar := h.writtenChar ht h3 (Ne.symm hc) ho
      have hon := writtenChar_on ht h3 c hpage
      rw [← hpage] at hchar
      rw [if_neg h0, List.filterMap_cons_some ho]
      exact ih hchar (hon.paging ▸ ht) (hpage.trans (hon.screenPage t).symm) hcs

/-! ### Calls -/

/-- The terminal `t` is the one that `terminal_write` writes to: the visible one for the handlers,
whose descriptor is 100, and for a process the scheduled one, with `VIDMEM` mapped to its screen. -/
def Writes (fd : Int32) (t : ℕ) (d : Display) : Prop :=
  if fd = 100 then t = d.visibleTerm
  else t = d.scheduledTerm ∧ d.frame videoMemAddr = d.screenPage t

/-- The bytes of a call. -/
def callBytes (call : Buf × Int32) : List UInt8 :=
  (List.range call.2.toInt.toNat).map call.1

/-- Calls of `terminal_write`, one after another. -/
def writeCalls (fd : Int32) : List (Buf × Int32) → Display → Except Display Display
  | [], d => .ok d
  | (buf, nbytes) :: calls, d => do
    let (_, d) ← terminalWrite fd (some buf) nbytes d
    writeCalls fd calls d

/-- The patch leaves a terminal that is written to as it is. -/
lemma Writes.writePatch {fd : Int32} (h : Writes fd t d) :
    Writes fd t d.writePatch ∧ writeTarget fd d = t := by
  rw [Writes] at h ⊢
  rw [writeTarget]
  obtain ⟨table, heq, hcases⟩ := writePatch_eq d
  by_cases hfd : fd = 100
  · rw [if_pos hfd] at h ⊢
    rw [if_pos hfd, heq]
    exact ⟨h, h.symm⟩
  · rw [if_neg hfd] at h ⊢
    obtain ⟨hsched, hframe⟩ := h
    rw [if_neg hfd, heq]
    refine ⟨⟨hsched, ?_⟩, hsched.symm⟩
    rcases hcases with rfl | ⟨hne, hvisible, -⟩
    · exact hframe
    · -- a hidden terminal's screen is not that of the visible one
      rw [hvisible, screenPage, if_neg (hsched ▸ hne)] at hframe
      omega

/-- **A call.** -/
lemma Displays.terminalWrite (h : Displays t s d) (ht : VideoTables d.paging) (h3 : t < numTtys)
    {fd : Int32} (hw : Writes fd t d) (call : Buf × Int32) (h8 : 8 ∉ callBytes call) :
    ∃ d', terminalWrite fd (some call.1) call.2 d = .ok (call.2, d') ∧
      Displays t (s.run blankCell ((callBytes call).filterMap print?)) d' ∧
      VideoTables d'.paging ∧ Writes fd t d' := by
  obtain ⟨hw', htarget⟩ := hw.writePatch
  have ht' := ht.writePatch
  have h' : Displays t s d.writePatch := by
    constructor
    · rw [writePatch_terms]
      exact h.cursor
    · rw [screenPage, writePatch_visibleTerm, writePatch_vram]
      exact h.cell
  rw [terminalWrite_run, htarget]
  generalize d.writePatch = d₁ at hw' ht' h' ⊢
  have hpage : d₁.writeFrame (fd = 100) = d₁.screenPage t := by
    rw [writeFrame, screenPage]
    rw [Writes] at hw'
    by_cases hfd : fd = 100
    · rw [if_pos hfd] at hw'
      rw [if_pos (decide_eq_true hfd), if_pos hw']
      exact ht'.fixed.2
    · rw [if_neg hfd] at hw'
      rw [if_neg (by simp [hfd])]
      exact hw'.2
  have hstays : (d₁.terms t).cursor.Stays (callBytes call) := Cursor.stays_of_notMem h8
  obtain ⟨hloop, hwrote⟩ := writeLoop_wrote (fd = 100) ht' h'.inRange hstays
  have hshown := h'.written ht' h3 hpage h8
  generalize d₁.written (d₁.writeFrame (fd = 100)) t (callBytes call) = d₂ at hloop hwrote hshown
  have hframe : Writes fd t d₂ := by
    rw [Writes] at hw' ⊢
    rw [hwrote.drawn.visibleTerm, hwrote.drawn.scheduledTerm, screenPage, hwrote.drawn.visibleTerm,
      frame, hwrote.drawn.paging]
    exact hw'
  have htables : VideoTables d₂.paging := hwrote.drawn.paging ▸ ht'
  rw [callBytes] at hloop
  rw [hloop]
  refine ⟨_, rfl, ?_⟩
  split
  · exact ⟨⟨hshown.cursor, hshown.cell⟩, htables, hframe⟩
  · exact ⟨hshown, htables, hframe⟩

end

end Display

/-- **The endless page.**  A terminal that displays any screen, with its cursor anywhere, displays
after any calls of `terminal_write` without backspaces the last 24 rows of the page that continues
the screen with the bytes of all calls. -/
theorem output_is_end_of_page (d : Display) (htables : Display.VideoTables d.paging) (t : ℕ)
    (h3 : t < numTtys) (fd : Int32) (hw : Display.Writes fd t d) (s : Screen Cell termRows termCols)
    (hs : Display.Displays t s d) (calls : List (Buf × Int32))
    (h8 : 8 ∉ calls.flatMap Display.callBytes) :
    ∃ d', d.writeCalls fd calls = .ok d' ∧
      Display.Displays t (((s.page blankCell).run
        ((calls.flatMap Display.callBytes).filterMap print?)).window termRows) d' := by
  rw [← Screen.run_eq]
  induction calls generalizing d s with
  | nil => exact ⟨d, rfl, hs⟩
  | cons call calls ih =>
    rw [List.flatMap_cons, List.mem_append, not_or] at h8
    obtain ⟨d₁, hcall, hs₁, ht₁, hw₁⟩ := hs.terminalWrite htables h3 hw call h8.1
    obtain ⟨d', hcalls, hs'⟩ := ih d₁ ht₁ hw₁ _ hs₁ h8.2
    refine ⟨d', ?_, ?_⟩
    · rw [Display.writeCalls, hcall]
      exact hcalls
    · rw [List.flatMap_cons, List.filterMap_append, Screen.run, List.foldl_append]
      exact hs'

/-- The empty screen, with the cursor in its last corner. -/
def sampleScreen : Screen Cell termRows termCols :=
  ⟨fun _ _ => blankCell, Fin.last 23, Fin.last 79⟩

/-- It is on all terminals, and a process runs on the second one, which is hidden. -/
def sampleDisplay : Display :=
  { (entryState sampleLayout samplePaging (fun _ i => Display.whiteout i)
      samplePcbs).toDisplay.pitAdvance.pitAdvance with
    terms := fun _ => { initTerm with cursor := ⟨23, 79⟩ } }

/-- The process writes `A`, then a newline and `B`: the screen scrolls for either of the first two. -/
theorem output_is_end_of_page_corner : ∃ d',
    sampleDisplay.writeCalls 1 [(fun _ => 0x41, 1), (fun i => if i = 0 then 10 else 0x42, 2)] =
      .ok d' ∧
    (d'.terms 1).cursor = ⟨23, 1⟩ ∧ d'.vram (d'.screenPage 1) (Display.cellAt 21 79) = 0x41 ∧
    d'.vram (d'.screenPage 1) (Display.cellAt 23 0) = 0x42 := by
  have hvram : sampleDisplay.vram = fun _ i => Display.whiteout i := rfl
  have hs : Display.Displays 1 sampleScreen sampleDisplay := by
    refine ⟨rfl, fun i j => ?_⟩
    have heven : Display.cellAt i j % 2 = 0 ∧ (Display.cellAt i j + 1) % 2 = 1 := by
      rw [Display.cellAt]
      omega
    rw [hvram]
    dsimp only
    rw [Display.whiteout, Display.whiteout, heven.1, heven.2]
    rfl
  obtain ⟨d', hd', hshown⟩ := output_is_end_of_page sampleDisplay
    ⟨by decide +kernel, by decide +kernel, by decide +kernel, by decide +kernel⟩ 1 (by decide) 1
    ⟨rfl, by decide +kernel⟩ sampleScreen hs
    [(fun _ => 0x41, 1), (fun i => if i = 0 then 10 else 0x42, 2)] (by decide)
  refine ⟨d', hd', ?_, ?_, ?_⟩
  · rw [hshown.cursor]
    decide
  · exact (congrArg Prod.fst (hshown.cell ⟨21, by decide⟩ ⟨79, by decide⟩)).symm
  · exact (congrArg Prod.fst (hshown.cell ⟨23, by decide⟩ ⟨0, by decide⟩)).symm

end WnajOS
