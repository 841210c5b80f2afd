import WnajOS.Screens

/-!
# Where `terminal_write` leaves the cursor and stores

The cursor after a byte depends on the byte and the cursor before alone.  Four functions of the
code move it, and each mends the edge that it may cross itself: all but `cursor_decrement`, which
takes it from the first position to row 255.  `Stays` says of a text that no backspace comes
there; then, and only then, every cell that is stored is one of the 24 rows.  `StoredIn` ties the
cells to video memory: in them, and nowhere else but where screens move, bytes are stored.
-/

namespace WnajOS

namespace Cursor

/-- `cursor_decrement`. -/
def back (p : Cursor) : Cursor :=
  if p.col = 0 then ⟨(p.row + 255) % 256, termCols - 1⟩ else ⟨p.row, p.col - 1⟩

/-- The cursor after a byte: where it would move beyond the last row, the screen moves instead. -/
def step (p : Cursor) (c : UInt8) : Cursor :=
  if c = 0 then p
  else if c = 8 then p.back
  else if Display.nextCursor c p = ⟨0, 0⟩ then ⟨termRows - panRows, 0⟩
  else Display.nextCursor c p

/-- No backspace of a text comes at the first position. -/
def Stays : Cursor → List UInt8 → Prop
  | _, [] => True
  | p, c :: cs => (c = 8 → p ≠ ⟨0, 0⟩) ∧ Stays (p.step c) cs

instance instDecidableStays : (p : Cursor) → (cs : List UInt8) → Decidable (p.Stays cs)
  | _, [] => .isTrue trivial
  | p, c :: cs =>
    have := instDecidableStays (p.step c) cs
    inferInstanceAs (Decidable ((c = 8 → p ≠ ⟨0, 0⟩) ∧ Stays (p.step c) cs))

variable {p : Cursor}

lemma back_inRange (h : p.InRange) (hne : p ≠ ⟨0, 0⟩) : p.back.InRange := by
  obtain ⟨hrow, hcol⟩ := h
  rw [back]
  split
  · rename_i h0
    have hrow0 : p.row ≠ 0 := fun hr => hne (Cursor.ext hr h0)
    constructor
    · dsimp only
      omega
    · exact Nat.lt_succ_self 79
  · constructor
    · exact hrow
    · dsimp only
      omega

lemma step_inRange {c : UInt8} (h : p.InRange) (hback : c = 8 → p ≠ ⟨0, 0⟩) :
    (p.step c).InRange := by
  rw [step]
  split
  · exact h
  split
  · rename_i h8
    exact back_inRange h (hback h8)
  split
  · exact ⟨Nat.lt_succ_self 23, Nat.zero_lt_succ _⟩
  · exact Display.nextCursor_inRange c p h

lemma Stays.inRange {cs : List UInt8} (hs : p.Stays cs) (h : p.InRange) :
    (cs.foldl step p).InRange := by
  induction cs generalizing p with
  | nil => exact h
  | cons c cs ih => exact ih hs.2 (step_inRange h hs.1)

/-- A text without backspaces. -/
lemma stays_of_notMem {cs : List UInt8} (h : 8 ∉ cs) : p.Stays cs := by
  induction cs generalizing p with
  | nil => trivial
  | cons c cs ih =>
    rw [List.mem_cons, not_or] at h
    constructor
    · rintro rfl
      exact absurd rfl h.1
    · exact ih h.2

end Cursor

namespace Display

/-! ### Cells -/

/-- The cells in which `putc` stores, as offsets from the address of video memory. -/
def putCells (c : UInt8) (d : Display) : List ℕ :=
  if c = 10 ∨ c = 13 then []
  else if c = 8 then []
  else if c = 9 then []
  else [(termCols * d.screenY + d.screenX) * 2]

/-- The cells in which `terminal_write` stores for a byte. -/
def charCells (t : ℕ) (c : UInt8) (d : Display) : List ℕ :=
  if c = 0 then []
  else
    let d := d.cursorBefore c t
    putCells (glyph c) (d.screenSeek (d.terms t).cursor)

/-- The cells in which `terminal_write` stores, up to a page fault. -/
def writeCells (visible : Bool) (t : ℕ) : List UInt8 → Display → List ℕ
  | [], _ => []
  | c :: cs, d => charCells t c d ++
    match writeChar visible t c d with
    | .ok d' => writeCells visible t cs d'
    | .error _ => []

/-- Video memory after a character was stored in a cell of a page. -/
def storeCell (page cell : ℕ) (c : UInt8) (vram : ℕ → ℕ → UInt8) : ℕ → ℕ → UInt8 :=
  Function.update vram page (Function.update (Function.update (vram page) cell c) (cell + 1) attrib)

/-- Video memory after a character was stored in each of the cells of a page, in this order, where
screens may be moved up in between. -/
inductive StoredIn (page : ℕ) : List ℕ → (ℕ → ℕ → UInt8) → (ℕ → ℕ → UInt8) → Prop
  | nil (vram : ℕ → ℕ → UInt8) : StoredIn page [] vram vram
  | cell {vram vram' : ℕ → ℕ → UInt8} {cell : ℕ} {cells : List ℕ} (c : UInt8)
      (h : StoredIn page cells (storeCell page cell c vram) vram') :
      StoredIn page (cell :: cells) vram vram'
  | move {vram vram' : ℕ → ℕ → UInt8} {cells : List ℕ} (mem : ℕ)
      (h : StoredIn page cells (Function.update vram mem (panPage panRows (vram mem))) vram') :
      StoredIn page cells vram vram'

lemma StoredIn.append {page : ℕ} {cells cells' : List ℕ} {vram vram' vram'' : ℕ → ℕ → UInt8}
    (h : StoredIn page cells vram vram') (h' : StoredIn page cells' vram' vram'') :
    StoredIn page (cells ++ cells') vram vram'' := by
  induction h with
  | nil => exact h'
  | cell c h ih => exact .cell c (ih h')
  | move mem h ih => exact .move mem (ih h')

/-- A cell of the 24 rows. -/
def InText (cell : ℕ) : Prop := cell + 1 < termRows * termCols * 2

instance : DecidablePred InText := fun cell => inferInstanceAs (Decidable (cell + 1 < _))

section

variable {t : ℕ} {c : UInt8} {d : Display}

lemma cursorBefore_cursor (c : UInt8) (t : ℕ) (d : Display) :
    ((d.cursorBefore c t).terms t).cursor =
    if c = 8 then (d.terms t).cursor.back else (d.terms t).cursor := by
  rw [cursorBefore]
  split
  · rw [cursorDecrement, Cursor.back]
    split
    · exact setCursor_cursor t d _
    · exact setCursor_cursor t d _
  · rfl

/-- **The cells of one byte** are in the text if and only if it is no backspace at the first
position. -/
lemma charCells_inText (hcur : (d.terms t).cursor.InRange) :
    (∀ cell ∈ charCells t c d, InText cell) ↔ (c = 8 → (d.terms t).cursor ≠ ⟨0, 0⟩) := by
  rw [charCells]
  split
  · rename_i h0
    subst h0
    exact ⟨fun _ h => absurd h (by decide), fun _ cell h => absurd h List.not_mem_nil⟩
  -- the cell at the cursor, after the backspace if it is one
  have hcell : ∀ p : Cursor, (∀ cell ∈ putCells (glyph c) (screenSeek (d.cursorBefore c t) p),
      InText cell) ↔ (glyph c = 10 ∨ InText ((termCols * p.row + p.col) * 2)) := by
    intro p
    rw [putCells]
    rcases glyph_cases c with hg | ⟨h10, h13, h8, h9⟩
    · rw [if_pos (Or.inl hg)]
      exact ⟨fun _ => Or.inl hg, fun _ cell h => absurd h List.not_mem_nil⟩
    · rw [if_neg (by tauto), if_neg h8, if_neg h9, List.forall_mem_singleton]
      exact ⟨Or.inr, fun h => h.resolve_left h10⟩
  have hin : ∀ p : Cursor, p.InRange → InText ((termCols * p.row + p.col) * 2) := by
    rintro p ⟨hrow, hcol⟩
    rw [InText, termRows, termCols]
    omega
  dsimp only
  rw [hcell, cursorBefore_cursor]
  by_cases h8 : c = 8
  · subst h8
    rw [if_pos rfl]
    constructor
    · -- from the first position the cell is that of row 255
      rintro hor - h0
      rcases hor with hg | htext
      · exact absurd hg (by decide)
      · rw [h0] at htext
        exact absurd htext (by decide)
    · intro hne
      exact Or.inr (hin _ (Cursor.back_inRange hcur (hne rfl)))
  · rw [if_neg h8]
    exact ⟨fun _ h => absurd h h8, fun _ => Or.inr (hin _ hcur)⟩

end

/-! ### One byte -/

/-- The physical page behind the page through which `terminal_write` stores. -/
def writeFrame (visible : Bool) (d : Display) : ℕ :=
  d.frame (if visible then physVidmem else videoMemAddr)

section

variable {visible : Bool} {page t : ℕ} {c : UInt8} {cs : List UInt8} {d : Display}

/-- A byte is written. -/
lemma writeChar_eq (visible : Bool) (ht : VideoTables d.paging) (hc : c ≠ 0)
    (hcur : (d.terms t).cursor.InRange)
    (hback : c = 8 → (d.terms t).cursor ≠ ⟨0, 0⟩) :
    d.writeChar visible t c = .ok (d.writtenChar (d.writeFrame visible) t c) := by
  have hp := cursorBefore_inRange hcur hback
  have hpaging := (cursorBefore_on c t d).paging
  rw [writeChar, if_neg hc, writtenChar, writeFrame, frame, ← hpaging]
  rw [← hpaging] at ht
  dsimp only
  generalize d.cursorBefore c t = d₁ at hp ht ⊢
  have hput : (d₁.screenSeek (d₁.terms t).cursor).put visible (glyph c) =
      .ok ((d₁.screenSeek (d₁.terms t).cursor).drawGlyph
        (d₁.paging.pageTable0 (if visible then physVidmem else videoMemAddr)).addr (glyph c)) := by
    cases visible with
    | true => exact putcAt_eq (n := 0xB7) (d := d₁.screenSeek _) ht.fixed.1 rfl hp.2 hp.1.le c
    | false => exact putcAt_eq (n := 0xB8) (d := d₁.screenSeek _) ht.kernel rfl hp.2 hp.1.le c
  rw [hput]
  rfl

/-- What a byte stores. -/
lemma writtenChar_stored (hc : c ≠ 0) (page t : ℕ) (d : Display) :
    StoredIn page (charCells t c d) d.vram (d.writtenChar page t c).vram := by
  have hbefore := cursorBefore_vram c t d
  rw [charCells, if_neg hc, writtenChar, ← hbefore]
  dsimp only
  generalize d.cursorBefore c t = d₁
  have hdraw : StoredIn page (putCells (glyph c) (d₁.screenSeek (d₁.terms t).cursor)) d₁.vram
      ((d₁.screenSeek (d₁.terms t).cursor).drawGlyph page (glyph c)).vram := by
    rw [putCells, drawGlyph]
    rcases glyph_cases c with hg | ⟨h10, h13, h8, h9⟩
    · rw [if_pos (Or.inl hg), if_pos hg]
      exact .nil _
    · rw [if_neg (by tauto), if_neg h8, if_neg h9, if_neg h10]
      exact .cell _ (.nil _)
  generalize (d₁.screenSeek (d₁.terms t).cursor).drawGlyph page (glyph c) = d₂ at hdraw ⊢
  -- only `pan` changes video memory after the store
  have hafter : StoredIn page [] d₂.vram (d₂.cursorAfter c (d₁.terms t).cursor t).vram := by
    rw [cursorAfter_eq]
    split
    · exact .nil _
    split
    · rw [pan_eq]
      exact .move _ (.nil _)
    · exact .nil _
  have hboth := hdraw.append hafter
  rwa [List.append_nil] at hboth

/-- The cursor after a byte. -/
lemma writtenChar_cursor (hc : c ≠ 0) (page t : ℕ) (d : Display) :
    ((d.writtenChar page t c).terms t).cursor = (d.terms t).cursor.step c := by
  have hbefore := cursorBefore_cursor c t d
  rw [writtenChar, Cursor.step, if_neg hc]
  generalize d.cursorBefore c t = d₁ at hbefore ⊢
  have hterms := drawGlyph_terms page (glyph c) (d₁.screenSeek (d₁.terms t).cursor)
  generalize (d₁.screenSeek (d₁.terms t).cursor).drawGlyph page (glyph c) = d₂ at hterms ⊢
  rw [cursorAfter_eq]
  by_cases h8 : c = 8
  · rw [if_pos h8] at hbefore
    rw [if_pos h8, if_pos h8, ← hbefore]
    change (d₂.terms t).cursor = _
    rw [hterms]
    rfl
  · rw [if_neg h8] at hbefore
    have hadvance : ((d₂.advance c t).terms t).cursor = nextCursor c (d.terms t).cursor := by
      rw [advance, setCursor_cursor, hterms, ← hbefore]
      rfl
    rw [if_neg h8, if_neg h8, hadvance]
    split
    · rw [pan, setCursor_cursor]
    · exact hadvance

/-- The other terminals after a byte. -/
lemma writtenChar_terms (page : ℕ) (c : UInt8) (d : Display) {u : ℕ} (hu : u ≠ t) :
    (d.writtenChar page t c).terms u = d.terms u := by
  have hbefore := (cursorBefore_on c t d).terms u hu
  rw [writtenChar]
  generalize d.cursorBefore c t = d₁ at hbefore ⊢
  rw [← hbefore, cursorAfter_eq]
  have hterms := drawGlyph_terms page (glyph c) (d₁.screenSeek (d₁.terms t).cursor)
  generalize (d₁.screenSeek (d₁.terms t).cursor).drawGlyph page (glyph c) = d₂ at hterms ⊢
  have hd₂ : d₂.terms u = d₁.terms u := by
    rw [hterms]
    rfl
  have hadvance : (d₂.advance c t).terms u = d₂.terms u := Function.update_of_ne hu ..
  split
  · exact hd₂
  split
  · rw [pan_eq, home, setCursor]
    dsimp only
    rw [Function.update_of_ne hu]
    exact hadvance.trans hd₂
  · exact hadvance.trans hd₂

/-! ### A text -/

/-- A text written to the terminal `t`, whose stores go to the page `page`. -/
def written (page t : ℕ) (cs : List UInt8) (d : Display) : Display :=
  cs.foldl (fun d c => if c = 0 then d else d.writtenChar page t c) d

/-- `d'` differs from `d` in what a text written to the terminal `t` may change. -/
structure Wrote (t : ℕ) (cs : List UInt8) (d d' : Display) : Prop where
  drawn : Drawn d d'
  cursor : ∀ u, (d'.terms u).cursor =
    if u = t then cs.foldl Cursor.step (d.terms t).cursor else (d.terms u).cursor

lemma Wrote.self {d' : Display} (h : Wrote t cs d d') :
    (d'.terms t).cursor = cs.foldl Cursor.step (d.terms t).cursor := by
  rw [h.cursor, if_pos rfl]

lemma Wrote.cons {d' d'' : Display} (h : Wrote t [c] d d') (h' : Wrote t cs d' d'') :
    Wrote t (c :: cs) d d'' := by
  refine ⟨h.drawn.trans h'.drawn, fun u => ?_⟩
  rw [h'.cursor]
  split
  · rw [h.self]
    rfl
  · rename_i hu
    rw [h.cursor, if_neg hu]

/-- One byte of the loop. -/
lemma writeChar_wrote (visible : Bool) (ht : VideoTables d.paging)
    (hcur : (d.terms t).cursor.InRange) (hback : c = 8 → (d.terms t).cursor ≠ ⟨0, 0⟩) :
    d.writeChar visible t c = .ok (d.written (d.writeFrame visible) t [c]) ∧
      Wrote t [c] d (d.written (d.writeFrame visible) t [c]) := by
  by_cases hc : c = 0
  · subst hc
    refine ⟨by rw [writeChar, if_pos rfl]; rfl, Drawn.refl d, fun u => ?_⟩
    split
    · rename_i hu
      subst hu
      rfl
    · rfl
  · have heq := writeChar_eq visible ht hc hcur hback
    have hdraws := writeChar_draws visible t c d
    rw [heq] at hdraws
    have hone : d.written (d.writeFrame visible) t [c] =
        d.writtenChar (d.writeFrame visible) t c := if_neg hc
    rw [hone]
    refine ⟨heq, hdraws, fun u => ?_⟩
    split
    · rename_i hu
      subst hu
      exact writtenChar_cursor hc _ u d
    · rename_i hu
      rw [writtenChar_terms _ c d hu]

/-- **A text whose backspaces stay on the screen.**  The loop does not fault. -/
lemma writeLoop_wrote (visible : Bool) (ht : VideoTables d.paging)
    (hcur : (d.terms t).cursor.InRange) (hstays : (d.terms t).cursor.Stays cs) :
    d.writeLoop visible t cs = .ok (d.written (d.writeFrame visible) t cs) ∧
      Wrote t cs d (d.written (d.writeFrame visible) t cs) := by
  induction cs generalizing d with
  | nil =>
    refine ⟨rfl, Drawn.refl d, fun u => ?_⟩
    split
    · rename_i hu
      subst hu
      rfl
    · rfl
  | cons c cs ih =>
    obtain ⟨hchar, hwrote⟩ := writeChar_wrote visible ht hcur hstays.1
    have hcons : d.written (d.writeFrame visible) t (c :: cs) =
        (d.written (d.writeFrame visible) t [c]).written (d.writeFrame visible) t cs := rfl
    rw [writeLoop, hchar, hcons]
    generalize d.written (d.writeFrame visible) t [c] = d₁ at hwrote ⊢
    have hframe : d.writeFrame visible = d₁.writeFrame visible := by
      rw [writeFrame, writeFrame, frame, frame, hwrote.drawn.paging]
    have hself : (d₁.terms t).cursor = (d.terms t).cursor.step c := hwrote.self
    obtain ⟨hloop, hrest⟩ := ih (hwrote.drawn.paging ▸ ht)
      (hself ▸ Cursor.step_inRange hcur hstays.1) (hself ▸ hstays.2)
    rw [hframe]
    exact ⟨hloop, hwrote.cons hrest⟩

/-- **What a text stores.** -/
lemma writeCells_stored (visible : Bool) (ht : VideoTables d.paging)
    (hcur : (d.terms t).cursor.InRange) (hstays : (d.terms t).cursor.Stays cs) :
    StoredIn (d.writeFrame visible) (writeCells visible t cs d) d.vram
      (d.written (d.writeFrame visible) t cs).vram := by
  induction cs generalizing d with
  | nil => exact .nil _
  | cons c cs ih =>
    obtain ⟨hchar, hwrote⟩ := writeChar_wrote visible ht hcur hstays.1
    have hcons : d.written (d.writeFrame visible) t (c :: cs) =
        (d.written (d.writeFrame visible) t [c]).written (d.writeFrame visible) t cs := rfl
    have hfirst : StoredIn (d.writeFrame visible) (charCells t c d) d.vram
        (d.written (d.writeFrame visible) t [c]).vram := by
      by_cases hc : c = 0
      · subst hc
        exact .nil _
      · have hone : d.written (d.writeFrame visible) t [c] =
            d.writtenChar (d.writeFrame visible) t c := if_neg hc
        rw [hone]
        exact writtenChar_stored hc _ t d
    rw [writeCells, hchar, hcons]
    generalize d.written (d.writeFrame visible) t [c] = d₁ at hwrote hfirst ⊢
    have hframe : d.writeFrame visible = d₁.writeFrame visible := by
      rw [writeFrame, writeFrame, frame, frame, hwrote.drawn.paging]
    have hself : (d₁.terms t).cursor = (d.terms t).cursor.step c := hwrote.self
    have hrest := ih (hwrote.drawn.paging ▸ ht)
      (hself ▸ Cursor.step_inRange hcur hstays.1) (hself ▸ hstays.2)
    rw [← hframe] at hrest
    exact hfirst.append hrest

/-- **The cells of a text** are in the 24 rows if and only if its backspaces stay on the screen. -/
lemma writeCells_inText (visible : Bool) (ht : VideoTables d.paging)
    (hcur : (d.terms t).cursor.InRange) :
    (∀ cell ∈ writeCells visible t cs d, InText cell) ↔ (d.terms t).cursor.Stays cs := by
  induction cs generalizing d with
  | nil => exact ⟨fun _ => trivial, fun _ cell h => absurd h List.not_mem_nil⟩
  | cons c cs ih =>
    rw [writeCells, List.forall_mem_append, charCells_inText hcur, Cursor.Stays]
    refine and_congr_right fun hback => ?_
    obtain ⟨hchar, hwrote⟩ := writeChar_wrote visible ht hcur hback
    rw [hchar]
    generalize d.written (d.writeFrame visible) t [c] = d₁ at hwrote ⊢
    have hself : (d₁.terms t).cursor = (d.terms t).cursor.step c := hwrote.self
    have hih := ih (d := d₁) (hwrote.drawn.paging ▸ ht)
      (hself ▸ Cursor.step_inRange hcur hback)
    rw [hself] at hih
    exact hih

end

end Display

end WnajOS
