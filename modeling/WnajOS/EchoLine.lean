import WnajOS.CursorBound
import WnajOS.EndlessPage
import WnajOS.FunctionKeys

/-!
# The echo and the line

The line being typed is there twice: in the buffer of its terminal and, as every key is echoed, on
the screen.  The two copies are changed by different functions, and only the screen has rows: the
echo goes on in the next row, moves the screen up at the end of the last one, and a backspace may
go back to the row before.

In reading order the rows make no difference.  `Typing` says that the cells just before the cursor
are the line, and where the cursor is.
-/

namespace WnajOS

open LineDiscipline

/-! ### Reading order -/

namespace Cursor

/-- The number of cells before the cursor, in reading order. -/
def place (p : Cursor) : ℕ := termCols * p.row + p.col

/-- By how many rows the screen moves up when a byte is echoed: `pan` is called where the next
position is beyond the last row. -/
def scrolled (p : Cursor) (c : UInt8) : ℕ :=
  if c ≠ 0 ∧ c ≠ 8 ∧ Display.nextCursor c p = ⟨0, 0⟩ then panRows else 0

/-- By how many rows the screen moves up when a text is echoed. -/
def rowsScrolled : Cursor → List UInt8 → ℕ
  | _, [] => 0
  | p, c :: cs => p.scrolled c + rowsScrolled (p.step c) cs

variable {p : Cursor} {c : UInt8}

lemma InRange.place_lt (h : p.InRange) : p.place < termRows * termCols := by
  obtain ⟨hrow, hcol⟩ := h
  rw [place, termRows, termCols]
  omega

lemma place_ne_zero (h : p.place ≠ 0) : p ≠ ⟨0, 0⟩ := by
  rintro rfl
  exact h rfl

/-- A backspace goes back by one cell, also over the start of a row. -/
lemma back_place (h : p.InRange) (hne : p.place ≠ 0) : p.back.place + 1 = p.place := by
  obtain ⟨hrow, hcol⟩ := h
  rw [place, termCols] at hne
  rw [back]
  split
  · rename_i h0
    rw [place, place, termCols]
    dsimp only
    omega
  · rename_i h0
    rw [place, place, termCols]
    dsimp only
    omega

/-- A symbol goes on by one cell, of which a move of the screen takes back a row. -/
lemma step_place (h : p.InRange) (hc : Printable c) :
    (p.step c).place + termCols * p.scrolled c = p.place + 1 := by
  obtain ⟨h0, h8, -, h10, h13⟩ := hc
  obtain ⟨hrow, hcol⟩ := h
  have hnext : Display.nextCursor c p =
      if (p.col + 1) % 80 = 0 then ⟨(p.row + 1) % 24, 0⟩ else ⟨p.row, (p.col + 1) % 80⟩ :=
    if_neg (by tauto)
  rw [step, if_neg h0, if_neg h8, scrolled, hnext]
  by_cases hend : (p.col + 1) % 80 = 0
  · have hlast : p.col = 79 := by omega
    rw [if_pos hend]
    by_cases hbottom : (p.row + 1) % 24 = 0
    · have hrow' : p.row = 23 := by omega
      rw [if_pos (by rw [hbottom]), if_pos ⟨h0, h8, by rw [hbottom]⟩, place, place, hlast, hrow']
      rfl
    · have hne : (⟨(p.row + 1) % 24, 0⟩ : Cursor) ≠ ⟨0, 0⟩ := by
        intro heq
        exact hbottom (congrArg Cursor.row heq)
      rw [if_neg hne, if_neg fun hall => hne hall.2.2, place, place, termCols]
      dsimp only
      omega
  · have hne : (⟨p.row, (p.col + 1) % 80⟩ : Cursor) ≠ ⟨0, 0⟩ := by
      intro heq
      exact hend (congrArg Cursor.col heq)
    rw [if_neg hend, if_neg hne, if_neg fun hall => hne hall.2.2, place, place, termCols]
    dsimp only
    omega

/-- Where the screen moves up, the cursor goes to the start of the last row. -/
lemma scrolled_cases (p : Cursor) (c : UInt8) :
    p.scrolled c = 0 ∨ p.scrolled c = 1 ∧ p.step c = ⟨termRows - panRows, 0⟩ := by
  rw [scrolled]
  split
  · rename_i hend
    obtain ⟨h0, h8, hnext⟩ := hend
    exact Or.inr ⟨rfl, by rw [step, if_neg h0, if_neg h8, if_pos hnext]⟩
  · exact Or.inl rfl

end Cursor

/-! ### Cells in reading order -/

/-- A cell of a page, counted in reading order. -/
def cellOf (page : Buf) (n : ℕ) : Cell := (page (n * 2), page (n * 2 + 1))

lemma cellOf_writeCell (page : ℕ) (p : Cursor) (c : UInt8) (vram : ℕ → Buf) (n : ℕ) :
    cellOf (Display.writeCell page p c vram page) n =
      if n = p.place then (c, attrib) else cellOf (vram page) n := by
  rw [Display.writeCell, Function.update_self, cellOf]
  change (Function.update (Function.update (vram page) (p.place * 2) c) (p.place * 2 + 1) attrib
      (n * 2), Function.update (Function.update (vram page) (p.place * 2) c) (p.place * 2 + 1) attrib
      (n * 2 + 1)) = _
  rw [Function.update_of_ne (by omega)]
  by_cases hn : n = p.place
  · subst hn
    rw [if_pos rfl, Function.update_self, Function.update_self]
  · rw [if_neg hn, Function.update_of_ne (by omega), Function.update_of_ne (by omega),
      Function.update_of_ne (by omega), cellOf]

/-- `pan` moves every cell by a row. -/
lemma cellOf_panPage (page : Buf) {n : ℕ} (hn : n + termCols < termRows * termCols) :
    cellOf (Display.panPage panRows page) n = cellOf page (n + termCols) := by
  rw [termRows, termCols] at hn
  rw [cellOf, cellOf, Display.panPage_moved _ (by omega), Display.panPage_moved _ (by omega),
    termCols]
  exact Prod.ext (congrArg page (by omega)) (congrArg page (by omega))

namespace Display

/-- The place of the cursor of the visible terminal. -/
def place (d : Display) : ℕ := (d.terms d.visibleTerm).cursor.place

/-- What the visible terminal shows in a cell, counted in reading order. -/
def shown (d : Display) (n : ℕ) : Cell := cellOf (d.vram (d.screenPage d.visibleTerm)) n

section

variable {d d' : Display} {c : UInt8}

/-- **The echo of a byte** that fills a cell: the cell `n` shows what stood in the cell `m` or was
drawn there, as far down as the screen has moved up. -/
lemma Ready.echo_shown (h : d.Ready) (h3 : d.visibleTerm < numTtys) {p : Cursor}
    (hp : (d.terms d.visibleTerm).cursor = p) (h0 : c ≠ 0) (hline : ¬(c = 10 ∨ c = 13))
    (hback : c = 8 → p ≠ ⟨0, 0⟩) (heq : d.echo c = .ok d') {n m : ℕ}
    (hm : n + termCols * p.scrolled c = m) (hlt : m < termRows * termCols) :
    d'.shown n = if m = (if c = 8 then p.back else p).place then (glyph c, attrib)
      else d.shown m := by
  subst hp
  have hecho := echo_eq h.tables h.cursor hback
  have htables := h.tables.writePatch
  have hvisible := writePatch_visibleTerm d
  rw [heq, if_neg h0] at hecho
  obtain rfl := Except.ok.inj hecho
  have hglyph : glyph c ≠ 10 := fun hg => hline ((glyph_eq_line c).1 hg)
  have hpage : 0xB8 = d.writePatch.screenPage d.visibleTerm := (if_pos hvisible.symm).symm
  have hpage' : 0xB8 = d.screenPage d.visibleTerm := (if_pos rfl).symm
  have hon := writtenChar_on htables h3 c hpage
  have hdrawn := writtenChar_vram htables h3 hglyph hpage
  have hcursor := cursorBefore_cursor c d.visibleTerm d.writePatch
  rw [writePatch_terms] at hcursor hdrawn
  rw [hcursor, writePatch_vram] at hdrawn
  rw [shown, shown, ← hpage']
  change cellOf ((d.writePatch.writtenChar 0xB8 d.visibleTerm c).vram
    ((d.writePatch.writtenChar 0xB8 d.visibleTerm c).screenPage
      (d.writePatch.writtenChar 0xB8 d.visibleTerm c).visibleTerm)) n = _
  rw [hon.screenPage, hon.visibleTerm, hvisible, ← hpage, hdrawn]
  by_cases hend : c ≠ 8 ∧ nextCursor c (d.terms d.visibleTerm).cursor = ⟨0, 0⟩
  · -- the cell was filled before the screen was moved
    have hscrolled : (d.terms d.visibleTerm).cursor.scrolled c = 1 := if_pos ⟨h0, hend⟩
    rw [hscrolled, Nat.mul_one] at hm
    subst hm
    rw [if_pos hend, Function.update_self, cellOf_panPage _ hlt, cellOf_writeCell]
  · have hscrolled : (d.terms d.visibleTerm).cursor.scrolled c = 0 :=
      if_neg fun hall => hend hall.2
    rw [hscrolled] at hm
    subst hm
    rw [if_neg hend]
    exact cellOf_writeCell ..

/-! ### Keys -/

/-- The line of the visible terminal is on its screen: its bytes are in the cells just before the
cursor, which has come from the place `start` while the screen moved up by `rows` rows. -/
structure LineShown (start rows : ℕ) (d : Display) : Prop where
  room : d.line.idx.toNat ≤ d.place
  cells : ∀ i < d.line.idx.toNat,
    d.shown (d.place - d.line.idx.toNat + i) = (d.line.buffer i, attrib)
  cursor : d.place + termCols * rows = start + d.line.idx.toNat

/-- **The invariant.** -/
structure Typing (start rows : ℕ) (d : Display) : Prop where
  ready : d.Ready
  visible : d.visibleTerm < numTtys
  idx : d.line.idx.toNat ≤ inputBufferSize - 2
  moved : termCols * rows ≤ start
  line : LineShown start rows d

variable {start rows : ℕ}

/-- A byte is typed and echoed. -/
lemma Typing.type (h : Typing start rows d) (hc : Printable c)
    (hlt : d.line.idx.toNat < inputBufferSize - 2) : ∃ d', typeChar c d = .ok d' ∧
      Typing start (rows + (d.terms d.visibleTerm).cursor.scrolled c) d' ∧
      d'.line = d.line.type c ∧
      (d'.terms d'.visibleTerm).cursor = (d.terms d.visibleTerm).cursor.step c := by
  have hsize : d.line.idx.toNat < inputBufferSize := by omega
  have hbyte : d.line.typedByte c = c := Input.typedByte_of_lt c hsize
  let inp := d.line.store d.line.idx.toNat c
  have hset := h.ready.setLine { inp with idx := inp.idx + 1 }
  have hready := hset.ready h.ready trivial
  obtain ⟨d', heq, hechoed⟩ := hready.echo (c := c) fun h8 => absurd h8 hc.2.1
  have htype : typeChar c d = .ok d' := by
    have hfold : typeChar c d =
      echo (d.line.typedByte c) (d.setLine { inp with idx := inp.idx + 1 }) := rfl
    rw [hfold, hbyte]
    exact heq
  have hline : d'.line = d.line.type c := by
    have hsets := typeChar_setsLine c d
    rw [htype] at hsets
    exact hsets.line
  have hboth := hset.trans hechoed
  have hcursor : (d'.terms d'.visibleTerm).cursor = (d.terms d.visibleTerm).cursor.step c :=
    hboth.self
  refine ⟨d', htype, ?_, hline, hcursor⟩
  have hidx : d'.line.idx.toNat = d.line.idx.toNat + 1 := by
    rw [hline, Input.type_idx c hsize]
  have hbuffer : d'.line.buffer = Function.update d.line.buffer d.line.idx.toNat c := by
    rw [hline, Input.type, Input.store, if_pos hsize]
  have hplace : d'.place + termCols * (d.terms d.visibleTerm).cursor.scrolled c = d.place + 1 := by
    rw [place, hcursor]
    exact Cursor.step_place h.ready.cursor hc
  have hstart := h.line.cursor
  have hroom := h.line.room
  have hin : d.place < termRows * termCols := h.ready.cursor.place_lt
  -- the screen moves up when the cursor is in the last cell, and the line is shorter than that
  have hrows : termCols * (rows + (d.terms d.visibleTerm).cursor.scrolled c) ≤ start := by
    have hle := h.idx
    have hold := h.moved
    rw [inputBufferSize] at hle
    rcases Cursor.scrolled_cases (d.terms d.visibleTerm).cursor c with hs | ⟨hs, hstep⟩
    · rw [hs]
      exact hold
    · have hlast : (⟨termRows - panRows, 0⟩ : Cursor).place = 1840 := rfl
      rw [place, hcursor, hstep, hs, hlast, termCols] at hplace
      rw [termCols] at hstart
      rw [hs, termCols]
      omega
  refine ⟨⟨hboth.tables, ?_⟩, hboth.visibleTerm ▸ h.visible, by omega, hrows, ?_⟩
  · rw [hcursor]
    exact Cursor.step_inRange h.ready.cursor fun h8 => absurd h8 hc.2.1
  rw [Nat.mul_add] at hrows
  refine ⟨by omega, fun i hi => ?_, by rw [Nat.mul_add]; omega⟩
  have hm : d'.place - d'.line.idx.toNat + i +
      termCols * (d.terms d.visibleTerm).cursor.scrolled c = d.place - d.line.idx.toNat + i := by
    omega
  have hshown := hready.echo_shown h.visible hset.self hc.1 (fun hline => hline.elim hc.2.2.2.1
    hc.2.2.2.2) (fun h8 => absurd h8 hc.2.1) heq hm (by omega)
  rw [hshown, if_neg hc.2.1, hc.glyph, hbuffer]
  by_cases hlast : i = d.line.idx.toNat
  · rw [hlast, Function.update_self]
    exact if_pos (Nat.sub_add_cancel hroom)
  · rw [Function.update_of_ne hlast, ← h.line.cells i (by omega)]
    refine if_neg fun heq => hlast ?_
    change _ = d.place at heq
    omega

/-- The loop of the tabulator key. -/
lemma Typing.tab (n : ℕ) (h : Typing start rows d) : ∃ d', typeTab n d = .ok d' ∧ Typing start
    (rows + (d.terms d.visibleTerm).cursor.rowsScrolled (d.line.tabEchoes n)) d' := by
  induction n generalizing d rows with
  | zero => exact ⟨d, rfl, h⟩
  | succ n ih =>
    rw [Input.tabEchoes, typeTab]
    by_cases hlt : d.line.idx.toNat < inputBufferSize - 2
    · have hbyte : d.line.typedByte 0x20 = 0x20 := Input.typedByte_of_lt 0x20 (by omega)
      rw [if_pos hlt, if_pos hlt, hbyte, Cursor.rowsScrolled, ← Nat.add_assoc]
      obtain ⟨d₁, heq, htyping, hline, hcursor⟩ :=
        h.type (c := 0x20) ⟨by decide, by decide, by decide, by decide, by decide⟩ hlt
      obtain ⟨d', htab, htyping'⟩ := ih htyping
      rw [hline, hcursor] at htyping'
      refine ⟨d', ?_, htyping'⟩
      rw [heq]
      exact htab
    · rw [if_neg hlt, if_neg hlt]
      exact ⟨d, rfl, h⟩

/-- A backspace that finds a byte in the line. -/
lemma Typing.erase (h : Typing start rows d) (hne : d.line.idx ≠ 0) :
    ∃ d', echo 8 (d.setLine d.line.erase) = .ok d' ∧ Typing start rows d' ∧
      d'.shown d'.place = blankCell := by
  have hpos : d.line.idx.toNat ≠ 0 := fun h0 => hne (UInt8.toNat_inj.1 h0)
  have hroom := h.line.room
  have hstart := h.line.cursor
  have hidx := h.idx
  have hfirst : d.place ≠ 0 := by omega
  have hback : (8 : UInt8) = 8 → (d.terms d.visibleTerm).cursor ≠ ⟨0, 0⟩ :=
    fun _ => Cursor.place_ne_zero hfirst
  have hset := h.ready.setLine d.line.erase
  have hready := hset.ready h.ready trivial
  obtain ⟨d', heq, hechoed⟩ := hready.echo (c := 8) (by rw [hset.self]; exact hback)
  have hline : d'.line = d.line.erase := by
    have hsets := setLine_echo d d.line.erase 8
    rw [heq] at hsets
    exact hsets.line
  have hboth := hset.trans hechoed
  have hcursor : (d'.terms d'.visibleTerm).cursor = (d.terms d.visibleTerm).cursor.back :=
    hboth.self
  have hplace : d'.place + 1 = d.place := by
    rw [place, hcursor]
    exact Cursor.back_place h.ready.cursor hfirst
  have hin : d.place < termRows * termCols := h.ready.cursor.place_lt
  have hidx' : d'.line.idx.toNat = d.line.idx.toNat - 1 := by rw [hline, Input.erase_idx]
  have hbuffer : d'.line.buffer =
      Function.update d.line.buffer (d.line.idx - 1).toNat 0x20 := by
    rw [hline, Input.erase, if_pos hne]
  -- only the cell before the cursor is drawn, and that byte is the one the line loses
  have hshown : ∀ n < termRows * termCols,
      d'.shown n = if n = d'.place then blankCell else d.shown n := by
    intro n hn
    have hstill : (d.terms d.visibleTerm).cursor.scrolled 8 = 0 := if_neg fun hall => hall.2.1 rfl
    have hcell := hready.echo_shown h.visible (p := (d.terms d.visibleTerm).cursor) hset.self
      (by decide) (by decide) hback heq (n := n) (m := n) (by rw [hstill]; rfl) hn
    rw [if_pos rfl, ← hcursor] at hcell
    exact hcell
  refine ⟨d', heq, ⟨⟨hboth.tables, ?_⟩, hboth.visibleTerm ▸ h.visible, by omega, h.moved,
    by omega, fun i hi => ?_, by omega⟩, by rw [hshown _ (by omega), if_pos rfl]⟩
  · rw [hcursor]
    exact Cursor.back_inRange h.ready.cursor (hback rfl)
  · have hcells := h.line.cells i (by omega)
    have hold : (d.line.idx - 1).toNat = d.line.idx.toNat - 1 := by
      rw [← Input.erase_idx, Input.erase, if_pos hne]
    rw [hshown _ (by omega), if_neg (by omega), hbuffer, hold, Function.update_of_ne (by omega),
      ← hcells]
    exact congrArg d.shown (by omega)

/-- By how many rows a key moves the screen of the visible terminal up. -/
def rowsOfKey (d : Display) (k : Key UInt8) : ℕ :=
  (d.terms d.visibleTerm).cursor.rowsScrolled (d.line.echoes k)

/-- **One key.** -/
lemma Typing.key (h : Typing start rows d) {k : Key UInt8} (hk : k ≠ .enter)
    (hins : ∀ c, k = .insert c → Printable c) : ∃ d', d.keyStroke k = .ok d' ∧
      Typing start (rows + d.rowsOfKey k) d' ∧
      (k = .erase → d.line.idx ≠ 0 → d'.shown d'.place = blankCell) := by
  cases k with
  | insert c =>
    rw [keyStroke, rowsOfKey, Input.echoes]
    by_cases hlt : d.line.idx.toNat < inputBufferSize - 2
    · obtain ⟨d', heq, htyping, -⟩ := h.type (hins c rfl) hlt
      rw [if_pos hlt, if_pos hlt, Input.typedByte_of_lt c (by omega)]
      exact ⟨d', heq, htyping, fun herase => absurd herase (by simp)⟩
    · rw [if_neg hlt, if_neg hlt]
      exact ⟨d, rfl, h, fun herase => absurd herase (by simp)⟩
  | tab =>
    obtain ⟨d', heq, htyping⟩ := h.tab 4
    exact ⟨d', heq, htyping, fun herase => absurd herase (by simp)⟩
  | erase =>
    rw [keyStroke, rowsOfKey, Input.echoes]
    by_cases hne : d.line.idx ≠ 0
    · obtain ⟨d', heq, htyping, hblank⟩ := h.erase hne
      rw [if_pos hne, if_pos hne]
      exact ⟨d', heq, htyping, fun _ _ => hblank⟩
    · rw [if_neg hne, if_neg hne]
      exact ⟨d, rfl, h, fun _ hne' => absurd hne' hne⟩
  | enter => exact absurd rfl hk

end

end Display

/-! ### Keys that edit the line -/

/-- A key of the keyboard, with the modifiers as they are then, that `keyboard_handler` inserts or
that is a tab or a backspace. -/
structure TypedKey where
  code : UInt8
  mods : KbdMods
  key : Key UInt8
  routed : lineKey (mods.keyToAscii code).2.control (mods.keyToAscii code).1 = some key
  edits : key ≠ .enter

/-- What a key has with shift or without it is in the tables. -/
lemma shiftable_ne {r0 r1 r2 r3 : Str} {tick bar x : UInt8} (hx : x ≠ 0)
    (hrows : ∀ r ∈ [r0, r1, r2, r3], x ∉ r) (htick : x ≠ tick) (hbar : x ≠ bar) (keycode : UInt8) :
    KbdMods.shiftable r0 r1 r2 r3 tick bar keycode ≠ x := by
  have hgetD : ∀ r ∈ [r0, r1, r2, r3], ∀ i, r.getD i 0 ≠ x := by
    intro r hr i heq
    by_cases hi : i < r.length
    · rw [List.getD_eq_getElem r 0 hi] at heq
      exact hrows r hr (heq ▸ List.getElem_mem hi)
    · rw [List.getD_eq_default r 0 (Nat.not_lt.1 hi)] at heq
      exact hx heq.symm
  rw [KbdMods.shiftable]
  split
  · exact hgetD r0 (by simp) _
  split
  · exact hgetD r1 (by simp) _
  split
  · exact hgetD r2 (by simp) _
  split
  · exact hgetD r3 (by simp) _
  split
  · exact htick.symm
  split
  · exact hbar.symm
  · exact hx.symm

lemma character_ne_return (code : UInt8) (m : KbdMods) : m.character code ≠ 13 := by
  rw [KbdMods.character]
  split
  · decide
  split
  · decide
  split
  · decide
  split
  · decide
  split
  · decide
  split
  · rename_i hswitch
    rintro rfl
    exact absurd hswitch.1 (by decide)
  split
  · exact shiftable_ne (by decide) (by decide) (by decide) (by decide) code
  · exact shiftable_ne (by decide) (by decide) (by decide) (by decide) code

/-- No key sends a carriage return. -/
lemma keyToAscii_ne_return (code : UInt8) (m : KbdMods) : (m.keyToAscii code).1 ≠ 13 := by
  rw [KbdMods.keyToAscii]
  dsimp only
  split
  · exact (by decide : (0 : UInt8) ≠ 13)
  · exact character_ne_return code _

/-- The bytes that are inserted are drawn as they are. -/
lemma TypedKey.printable (k : TypedKey) {c : UInt8} (h : k.key = .insert c) : Printable c := by
  obtain ⟨hchr, h0, h8, h9, h10⟩ := lineKey_insert (h ▸ k.routed)
  exact ⟨h0, h8, h9, h10, hchr ▸ keyToAscii_ne_return _ _⟩

namespace Display

/-- What happens between two keys: anything but output on the visible terminal and a change of its
line. -/
structure Elsewhere (d d' : Display) : Prop where
  visibleTerm : d'.visibleTerm = d.visibleTerm
  tables : VideoTables d'.paging
  screen : SameScreen d.visibleTerm d d'
  line : d'.line = d.line

/-- **The echo agrees with the line** after every key of a sequence, whatever else happens in
between: the handler returns, the line is on the screen, and the cell at the cursor is blank
after a backspace that took a byte from the line. -/
def EchoAgrees (start : ℕ) : ℕ → List TypedKey → Display → Prop
  | _, [], _ => True
  | rows, k :: ks, d => ∀ d₁, Elsewhere d d₁ → ∃ d', keyInterrupt k.code k.mods d₁ = .ok d' ∧
    LineShown start (rows + d₁.rowsOfKey k.key) d' ∧
    (k.key = .erase → d₁.line.idx ≠ 0 → d'.shown d'.place = blankCell) ∧
    EchoAgrees start (rows + d₁.rowsOfKey k.key) ks d'

/-- A tick. -/
lemma Advanced.elsewhere {d d' : Display} (h : Advanced d d') (ht : VideoTables d'.paging) :
    Elsewhere d d' := by
  refine ⟨h.visibleTerm, ht, h.sameScreen d.visibleTerm, ?_⟩
  rw [line, line, h.visibleTerm, h.terms]

/-- Output on another terminal. -/
lemma OnScreen.elsewhere {t : ℕ} {d d' : Display} (h : OnScreen t d d') (hne : t ≠ d.visibleTerm)
    (ht : VideoTables d.paging) : Elsewhere d d' := by
  refine ⟨h.visibleTerm, h.paging.symm ▸ ht, h.sameScreen hne.symm, ?_⟩
  rw [line, line, h.visibleTerm, h.terms _ hne.symm]

lemma Typing.elsewhere {start rows : ℕ} {d d' : Display} (h : Typing start rows d)
    (he : Elsewhere d d') : Typing start rows d' := by
  have hcursor : (d'.terms d'.visibleTerm).cursor = (d.terms d.visibleTerm).cursor := by
    rw [he.visibleTerm]
    exact he.screen.cursor
  have hplace : d'.place = d.place := congrArg Cursor.place hcursor
  have hin : d.place < termRows * termCols := h.ready.cursor.place_lt
  have hshown : ∀ n < termRows * termCols, d'.shown n = d.shown n := by
    intro n hn
    rw [shown, shown, he.visibleTerm]
    exact Prod.ext (he.screen.rows _ (by omega)) (he.screen.rows _ (by omega))
  refine ⟨⟨he.tables, hcursor ▸ h.ready.cursor⟩, he.visibleTerm ▸ h.visible, he.line ▸ h.idx,
    h.moved, ?_, fun i hi => ?_, ?_⟩
  · rw [hplace, he.line]
    exact h.line.room
  · rw [he.line] at hi ⊢
    have hroom := h.line.room
    rw [hplace, hshown _ (by omega)]
    exact h.line.cells i hi
  · rw [hplace, he.line]
    exact h.line.cursor

/-- **Echo and line agree** along every sequence of keys, from wherever an empty line starts. -/
theorem echo_agrees (d : Display) (htables : VideoTables d.paging) (h3 : d.visibleTerm < numTtys)
    (hcursor : (d.terms d.visibleTerm).cursor.InRange) (hidx : d.line.idx = 0)
    (ks : List TypedKey) : EchoAgrees d.place 0 ks d := by
  have hidx' : d.line.idx.toNat = 0 := by rw [hidx]; rfl
  have hstart : Typing d.place 0 d := by
    refine ⟨⟨htables, hcursor⟩, h3, by omega, Nat.zero_le _, by omega, fun i hi => ?_, by omega⟩
    omega
  generalize d.place = start at hstart ⊢
  generalize 0 = rows at hstart ⊢
  clear htables h3 hcursor hidx hidx'
  induction ks generalizing d rows with
  | nil => trivial
  | cons k ks ih =>
    intro d₁ he
    obtain ⟨d', heq, htyping, hblank⟩ :=
      (hstart.elsewhere he).key k.edits fun c hc => k.printable hc
    refine ⟨d', ?_, htyping.line, hblank, ih d' _ htyping⟩
    rw [keyInterrupt, keyboardHandler_of_lineKey k.routed]
    exact heq

/-- `A`, the tabulator and backspace, typed in the last cell of the screen. -/
theorem echo_agrees_corner : EchoAgrees 1919 0
    [⟨0x1E, KbdMods.none, .insert 0x61, by decide, by decide⟩,
      ⟨0x0F, KbdMods.none, .tab, by decide, by decide⟩,
      ⟨0x0E, KbdMods.none, .erase, by decide, by decide⟩] sampleDisplay :=
  echo_agrees sampleDisplay ⟨by decide +kernel, by decide +kernel, by decide +kernel,
    by decide +kernel⟩ (by decide) (by decide) rfl _

end Display

end WnajOS
