import WnajOS.Output

/-!
# Which page a terminal's output goes to

`VIDMEM` and the page of the programs are to map to the screen of the scheduled terminal.
`pit_handler` sets both entries of the page tables, but `term_switch` leaves them alone: when
the terminal that becomes visible or hidden is the scheduled one, they are wrong until the next
tick.  Where no such switch comes, every store goes to the writer's own screen.

One more thing can lead a store away: a backspace at the first position moves the cursor to row
255, far beyond the page.
-/

namespace WnajOS

/-- A position on the screen. -/
def Cursor.InRange (p : Cursor) : Prop := p.row < 24 ∧ p.col < 80

instance : DecidablePred Cursor.InRange := fun p => inferInstanceAs (Decidable (p.row < 24 ∧ _))

namespace Display

/-! ### Output to one screen -/

/-- `d'` differs from `d` in what output to the terminal `t` may change: its cursor, its
screen, the console position and the cursor of the display. -/
structure OnScreen (t : ℕ) (d d' : Display) : Prop where
  scheduledTerm : d'.scheduledTerm = d.scheduledTerm
  visibleTerm : d'.visibleTerm = d.visibleTerm
  paging : d'.paging = d.paging
  terms : ∀ u, u ≠ t → d'.terms u = d.terms u
  pages : ∀ page, page ≠ d.screenPage t → d'.vram page = d.vram page

/-- The entries of the page tables that never change. -/
structure VideoTables (pg : Paging) : Prop where
  fixed : (pg.pageTable0 0xB7).present ∧ (pg.pageTable0 0xB7).addr = 0xB8
  back : ∀ t < numTtys, (pg.pageTable0 (0xB9 + t)).addr = 0xB9 + t
  kernel : (pg.pageTable0 0xB8).present
  program : (pg.userVidmapTable 0xB8).present

section

variable {t : ℕ} {d d' d'' : Display}

namespace OnScreen

lemma refl (t : ℕ) (d : Display) : OnScreen t d d :=
  ⟨rfl, rfl, rfl, fun _ _ => rfl, fun _ _ => rfl⟩

lemma screenPage (h : OnScreen t d d') (u : ℕ) : d'.screenPage u = d.screenPage u := by
  rw [Display.screenPage, Display.screenPage, h.visibleTerm]

lemma trans (h : OnScreen t d d') (h' : OnScreen t d' d'') : OnScreen t d d'' := by
  refine ⟨h'.scheduledTerm.trans h.scheduledTerm, h'.visibleTerm.trans h.visibleTerm,
    h'.paging.trans h.paging, fun u hu => (h'.terms u hu).trans (h.terms u hu), ?_⟩
  intro page hpage
  rw [h'.pages page (by rw [h.screenPage]; exact hpage), h.pages page hpage]

end OnScreen

lemma screenSeek_on (t : ℕ) (d : Display) (p : Cursor) : OnScreen t d (d.screenSeek p) :=
  ⟨rfl, rfl, rfl, fun _ _ => rfl, fun _ _ => rfl⟩

lemma setCursor_on (t : ℕ) (d : Display) (p : Cursor) : OnScreen t d (d.setCursor t p) :=
  ⟨rfl, rfl, rfl, fun _ hu => Function.update_of_ne hu .., fun _ _ => rfl⟩

lemma updateCursor_on (t u : ℕ) (d : Display) : OnScreen t d (d.updateCursor u) :=
  ⟨rfl, rfl, rfl, fun _ _ => rfl, fun _ _ => rfl⟩

lemma setCursor_cursor (t : ℕ) (d : Display) (p : Cursor) :
    ((d.setCursor t p).terms t).cursor = p := by
  simp only [setCursor, Function.update_self]

lemma cursorBefore_on (c : UInt8) (t : ℕ) (d : Display) : OnScreen t d (d.cursorBefore c t) := by
  rw [cursorBefore]
  split
  · rw [cursorDecrement]
    split
    · exact setCursor_on t d _
    · exact setCursor_on t d _
  · exact OnScreen.refl t d

lemma cursorBefore_vram (c : UInt8) (t : ℕ) (d : Display) : (d.cursorBefore c t).vram = d.vram := by
  rw [cursorBefore, cursorDecrement]
  split
  · split
    · rfl
    · rfl
  · rfl

/-- The page that `pan` moves is the screen of the terminal. -/
lemma pan_frame (ht : VideoTables d.paging) (h3 : t < numTtys) :
    d.frame (if t = d.visibleTerm then physVidmem else termMem t) = d.screenPage t := by
  rw [screenPage]
  split
  · exact ht.fixed.2
  · exact ht.back t h3

lemma scroll_on (ht : VideoTables d.paging) (h3 : t < numTtys) (rows : ℕ) :
    OnScreen t d (d.scroll rows t) := by
  refine ⟨rfl, rfl, rfl, fun _ _ => rfl, fun page hpage => ?_⟩
  rw [scroll]
  dsimp only
  rw [pan_frame ht h3, Function.update_of_ne hpage]

/-- A byte is stored in the screen of the terminal. -/
lemma setPage_on (ht : VideoTables d.paging) (h3 : t < numTtys) (page : ℕ → UInt8) :
    OnScreen t d (d.setPage (d.frame (d.panMem t)) page) := by
  refine ⟨rfl, rfl, rfl, fun _ _ => rfl, fun q hq => ?_⟩
  rw [← pan_frame ht h3] at hq
  exact Function.update_of_ne hq ..

lemma home_on (rows t : ℕ) (d : Display) : OnScreen t d (d.home rows t) :=
  (screenSeek_on t d _).trans (setCursor_on t _ _)

lemma cursorAfter_on (ht : VideoTables d.paging) (h3 : t < numTtys) (c : UInt8) (p : Cursor) :
    OnScreen t d (d.cursorAfter c p t) := by
  have hadvance : OnScreen t d (d.advance c t) := setCursor_on t d _
  rw [cursorAfter_eq]
  split
  · exact screenSeek_on t d p
  split
  · have hscroll : OnScreen t (d.advance c t) ((d.advance c t).scroll panRows t) :=
      scroll_on (d := d.advance c t) ht h3 panRows
    exact hadvance.trans (hscroll.trans (home_on _ t _))
  · exact hadvance

end

/-- The store of a program changes a byte of video memory. -/
lemma userPoke_draws (d : Display) (i : ℕ) (b : UInt8) : Draws d (d.userPoke i b) := by
  rw [userPoke]
  split
  · exact ⟨rfl, rfl, rfl, fun _ => rfl, fun _ => rfl⟩
  · exact Drawn.refl d

/-! ### Positions -/

lemma nextCursor_inRange (c : UInt8) (p : Cursor) (hp : p.InRange) : (nextCursor c p).InRange := by
  obtain ⟨hrow, hcol⟩ := hp
  rw [nextCursor]
  split
  · exact ⟨Nat.mod_lt _ (by decide), Nat.zero_lt_succ _⟩
  split
  · exact ⟨Nat.mod_lt _ (by decide), Nat.zero_lt_succ _⟩
  · exact ⟨hrow, Nat.mod_lt _ (by decide)⟩

/-- A backspace that does not come at the first position keeps the cursor on the screen. -/
lemma cursorBefore_inRange {c : UInt8} {t : ℕ} {d : Display} (h : (d.terms t).cursor.InRange)
    (hc : c = 8 → (d.terms t).cursor ≠ ⟨0, 0⟩) : ((d.cursorBefore c t).terms t).cursor.InRange := by
  obtain ⟨hrow, hcol⟩ := h
  rw [cursorBefore]
  split
  · rename_i h8
    rw [cursorDecrement]
    split
    · rename_i h0
      have hne : (d.terms t).cursor.row ≠ 0 := fun hr => hc h8 (Cursor.ext hr h0)
      have hrow' : ((d.terms t).cursor.row + 255) % 256 < 24 := by omega
      rw [setCursor_cursor]
      exact ⟨hrow', Nat.lt_succ_self 79⟩
    · have hcol' : (d.terms t).cursor.col - 1 < 80 := by omega
      rw [setCursor_cursor]
      exact ⟨hrow, hcol'⟩
  · exact ⟨hrow, hcol⟩

lemma cursorAfter_inRange {c : UInt8} {p : Cursor} {t : ℕ} {d : Display}
    (h : (d.terms t).cursor.InRange) : ((d.cursorAfter c p t).terms t).cursor.InRange := by
  have hadvance : ((d.advance c t).terms t).cursor.InRange := by
    rw [advance, setCursor_cursor]
    exact nextCursor_inRange c _ h
  rw [cursorAfter_eq]
  split
  · exact h
  split
  · rw [pan, setCursor_cursor]
    exact ⟨Nat.lt_succ_self 23, Nat.zero_lt_succ _⟩
  · exact hadvance

/-! ### Drawing a glyph -/

/-- A cell of a screen. -/
def writeCell (page : ℕ) (p : Cursor) (c : UInt8) (vram : ℕ → ℕ → UInt8) : ℕ → ℕ → UInt8 :=
  let i := (termCols * p.row + p.col) * 2
  Function.update vram page
    (Function.update (Function.update (vram page) i c) (i + 1) attrib)

/-- What `putc` does to a display when the page of video memory is there. -/
def drawGlyph (page : ℕ) (g : UInt8) (d : Display) : Display :=
  if g = 10 then { d with screenX := 0, screenY := d.screenY + 1 }
  else
    let x := (d.screenX + 1) % termCols
    { d with
      vram := writeCell page ⟨d.screenY, d.screenX⟩ g d.vram
      screenX := x
      screenY := (d.screenY + x / termCols) % termRows }

lemma glyph_cases (c : UInt8) :
    glyph c = 10 ∨ (glyph c ≠ 10 ∧ glyph c ≠ 13 ∧ glyph c ≠ 8 ∧ glyph c ≠ 9) := by
  rw [glyph]
  split
  · exact Or.inr (by decide)
  split
  · exact Or.inl rfl
  split
  · exact Or.inr (by decide)
  · rename_i h8 hline h9
    exact Or.inr ⟨fun h => hline (Or.inl h), fun h => hline (Or.inr h), h8, h9⟩

lemma glyph_eq_line (c : UInt8) : glyph c = 10 ↔ c = 10 ∨ c = 13 := by
  rw [glyph]
  split
  · rename_i h8
    rw [h8]
    decide
  split
  · rename_i hline
    exact ⟨fun _ => hline, fun _ => rfl⟩
  rename_i hline
  split
  · rename_i h9
    rw [h9]
    decide
  · exact ⟨fun h => Or.inl h, fun h => absurd h hline⟩

/-- `putc` in a page that is present. -/
lemma putcAt_eq {n page : ℕ} {d : Display} (hpresent : (d.paging.pageTable0 n).present)
    (hpage : (d.paging.pageTable0 n).addr = page) (hx : d.screenX < 80) (hy : d.screenY ≤ 24)
    (c : UInt8) : d.putcAt (n * 4096) (glyph c) attrib = .ok (d.drawGlyph page (glyph c)) := by
  rw [putcAt, drawGlyph]
  rcases glyph_cases c with hg | ⟨h10, h13, h8, h9⟩
  · rw [if_pos (Or.inl hg), if_pos hg]
  rw [if_neg (by tauto), if_neg h8, if_neg h9, if_neg h10]
  dsimp only
  -- both bytes of the cell lie in the page
  generalize hi : (termCols * d.screenY + d.screenX) * 2 = i
  have hlt : i + 1 < 4096 := by
    rw [termCols] at hi
    omega
  have hpoke : ∀ d' : Display, d'.paging = d.paging → ∀ j < 4096, ∀ b,
      d'.poke (n * 4096 + j) b = .ok { d' with
        vram := Function.update d'.vram page (Function.update (d'.vram page) j b) } := by
    intro d' hd' j hj b
    have hdiv : (n * 4096 + j) / 4096 = n := by omega
    have hmod : (n * 4096 + j) % 4096 = j := by omega
    rw [poke, hdiv, hmod, hd']
    simp only [hpresent, hpage, if_true]
  let d₁ : Display :=
    { d with vram := Function.update d.vram page (Function.update (d.vram page) i (glyph c)) }
  have h₁ : d.poke (n * 4096 + i) (glyph c) = .ok d₁ := hpoke d rfl i (by omega) _
  have h₂ := hpoke d₁ rfl (i + 1) hlt attrib
  rw [h₁, Nat.add_assoc]
  dsimp only [Bind.bind, Except.bind]
  rw [h₂, writeCell]
  simp only [hi, d₁, Function.update_self, Function.update_idem]
  rfl

lemma drawGlyph_on {t page : ℕ} {d : Display} (hpage : page = d.screenPage t) (g : UInt8) :
    OnScreen t d (d.drawGlyph page g) := by
  rw [drawGlyph]
  split
  · exact ⟨rfl, rfl, rfl, fun _ _ => rfl, fun _ _ => rfl⟩
  · refine ⟨rfl, rfl, rfl, fun _ _ => rfl, fun q hq => ?_⟩
    rw [← hpage] at hq
    exact Function.update_of_ne hq ..

lemma drawGlyph_terms (page : ℕ) (g : UInt8) (d : Display) :
    (d.drawGlyph page g).terms = d.terms := by
  rw [drawGlyph]
  split <;> rfl

lemma drawGlyph_paging (page : ℕ) (g : UInt8) (d : Display) :
    (d.drawGlyph page g).paging = d.paging := by
  rw [drawGlyph]
  split <;> rfl

/-- The console is at a cell of the page of video memory, or at none that is mapped. -/
def CellOk (d : Display) : Prop :=
  (termCols * d.screenY + d.screenX) * 2 < 4096 ∨
    (d.paging.pageTable0 ((vidmem + (termCols * d.screenY + d.screenX) * 2) / 4096)).present = false

instance (d : Display) : Decidable d.CellOk := inferInstanceAs (Decidable (_ ∨ _))

/-- An operation leaves a page as it was, whether it ends or faults. -/
def KeepsPage (q : ℕ) (d : Display) : Except Display Display → Prop
  | .ok d' => d'.vram q = d.vram q
  | .error d' => d'.vram q = d.vram q

/-- A store in another page. -/
lemma poke_keepsPage {q : ℕ} {d : Display} {va : ℕ} (b : UInt8)
    (h : (d.paging.pageTable0 (va / 4096)).addr ≠ q) : KeepsPage q d (d.poke va b) := by
  rw [poke]
  dsimp only
  split
  · exact Function.update_of_ne (Ne.symm h) ..
  · rfl

/-- A store in a page that is not there. -/
lemma poke_absent {d : Display} {va : ℕ} (b : UInt8)
    (h : (d.paging.pageTable0 (va / 4096)).present = false) : d.poke va b = .error d := by
  rw [poke]
  dsimp only
  rw [h]
  rfl

lemma poke_present {d : Display} {va : ℕ} (b : UInt8)
    (h : (d.paging.pageTable0 (va / 4096)).present = true) : d.poke va b =
      let page := Function.update (d.vram (d.frame (va / 4096))) (va % 4096) b
      .ok { d with vram := Function.update d.vram (d.frame (va / 4096)) page } := by
  rw [poke]
  dsimp only
  rw [h]
  rfl

/-- Video memory after the two bytes of a cell were stored at a virtual address. -/
def storeAt (va : ℕ) (c color : UInt8) (d : Display) : ℕ → ℕ → UInt8 :=
  let mem := d.frame (va / 4096)
  let page := Function.update (Function.update (d.vram mem) (va % 4096) c) ((va + 1) % 4096) color
  Function.update d.vram mem page

/-- **The stores of `putc`**, wherever the console is: both bytes of a cell are in one page, so it
faults before the first of them or not at all. -/
lemma putcAt_cell {video : ℕ} {c : UInt8} (hvideo : 2 ∣ video)
    (hc : c ≠ 10 ∧ c ≠ 13 ∧ c ≠ 8 ∧ c ≠ 9) (color : UInt8) (d : Display) :
    d.putcAt video c color =
      let va := video + (termCols * d.screenY + d.screenX) * 2
      let x := (d.screenX + 1) % termCols
      if (d.paging.pageTable0 (va / 4096)).present then
        .ok { d with vram := d.storeAt va c color, screenX := x,
                     screenY := (d.screenY + x / termCols) % termRows }
      else .error d := by
  obtain ⟨h10, h13, h8, h9⟩ := hc
  rw [putcAt, if_neg (by tauto), if_neg h8, if_neg h9]
  generalize hva : video + (termCols * d.screenY + d.screenX) * 2 = va
  have heven : 2 ∣ va := by omega
  have hpage : (va + 1) / 4096 = va / 4096 := by omega
  dsimp only
  cases hpresent : (d.paging.pageTable0 (va / 4096)).present with
  | false =>
    rw [poke_absent c hpresent]
    rfl
  | true =>
    rw [poke_present c hpresent]
    dsimp only [Bind.bind, Except.bind]
    rw [poke_present color (by rw [hpage]; exact hpresent), hpage]
    simp only [if_true, storeAt, frame, Function.update_self, Function.update_idem]
    rfl

/-- `putc` stores in the page of video memory only. -/
lemma putc_keepsPage {page : ℕ} {d : Display} (g : UInt8)
    (haddr : (d.paging.pageTable0 0xB8).addr = page) (hcell : d.CellOk) {q : ℕ} (hq : q ≠ page) :
    KeepsPage q d (d.putc g attrib) := by
  rw [putc, putcAt]
  by_cases hline : g = 10 ∨ g = 13
  · rw [if_pos hline]
    exact rfl
  rw [if_neg hline]
  by_cases h8 : g = 8
  · rw [if_pos h8]
    exact rfl
  rw [if_neg h8]
  by_cases h9 : g = 9
  · rw [if_pos h9]
    exact rfl
  rw [if_neg h9]
  dsimp only
  rw [CellOk] at hcell
  generalize hi : (termCols * d.screenY + d.screenX) * 2 = i at hcell ⊢
  rcases hcell with hlt | habsent
  · have hpage : (vidmem + i) / 4096 = 0xB8 ∧ (vidmem + i + 1) / 4096 = 0xB8 := by
      rw [vidmem]
      omega
    have hfirst := poke_keepsPage (d := d) g (q := q)
      (by rw [hpage.1, haddr]; exact Ne.symm hq)
    have hsame := poke_draws d (vidmem + i) g
    cases h₁ : d.poke (vidmem + i) g with
    | error d₁ =>
      rw [h₁] at hfirst
      exact hfirst
    | ok d₁ =>
      rw [h₁] at hfirst hsame
      have hpaging : d₁.paging = d.paging := hsame.paging
      have hsecond := poke_keepsPage (d := d₁) attrib (q := q)
        (by rw [hpaging, hpage.2, haddr]; exact Ne.symm hq)
      dsimp only [Bind.bind, Except.bind]
      cases h₂ : d₁.poke (vidmem + i + 1) attrib with
      | error d₂ =>
        rw [h₂] at hsecond
        exact hsecond.trans hfirst
      | ok d₂ =>
        rw [h₂] at hsecond
        exact hsecond.trans hfirst
  · -- the first store faults
    rw [poke_absent g habsent]
    exact rfl

/-! ### The echo of a byte -/

/-- A byte other than 0 written to the terminal `t`, whose screen is the page `page`. -/
def writtenChar (page t : ℕ) (c : UInt8) (d : Display) : Display :=
  let d := d.cursorBefore c t
  let p := (d.terms t).cursor
  ((d.screenSeek p).drawGlyph page (glyph c)).cursorAfter c p t

section

variable {c : UInt8} {t : ℕ} {d : Display}

lemma writtenChar_on (ht : VideoTables d.paging) (h3 : t < numTtys) (c : UInt8) {page : ℕ}
    (hpage : page = d.screenPage t) : OnScreen t d (d.writtenChar page t c) := by
  have hbefore := cursorBefore_on c t d
  rw [writtenChar]
  generalize d.cursorBefore c t = d₁ at hbefore ⊢
  have hdraw : OnScreen t d₁ ((d₁.screenSeek (d₁.terms t).cursor).drawGlyph page (glyph c)) :=
    (screenSeek_on t d₁ _).trans (drawGlyph_on (d := d₁.screenSeek (d₁.terms t).cursor)
      (hpage.trans (hbefore.screenPage t).symm) _)
  refine hbefore.trans (hdraw.trans (cursorAfter_on ?_ h3 c _))
  rw [hdraw.paging, hbefore.paging]
  exact ht

lemma writtenChar_inRange (page : ℕ) (h : (d.terms t).cursor.InRange)
    (hc : c = 8 → (d.terms t).cursor ≠ ⟨0, 0⟩) :
    ((d.writtenChar page t c).terms t).cursor.InRange := by
  refine cursorAfter_inRange ?_
  rw [drawGlyph_terms]
  exact cursorBefore_inRange h hc

/-- The pages after a byte that fills a cell: the one at the cursor, or the one before it for a
backspace. -/
lemma writtenChar_vram (ht : VideoTables d.paging) (h3 : t < numTtys) (hc : glyph c ≠ 10)
    {page : ℕ} (hpage : page = d.screenPage t) : (d.writtenChar page t c).vram =
      let drawn := writeCell page ((d.cursorBefore c t).terms t).cursor (glyph c) d.vram
      if c ≠ 8 ∧ nextCursor c (d.terms t).cursor = ⟨0, 0⟩ then
        Function.update drawn page (panPage panRows (drawn page))
      else drawn := by
  have hbefore := cursorBefore_on c t d
  have hvram := cursorBefore_vram c t d
  have hsame : c ≠ 8 → (d.cursorBefore c t).terms t = d.terms t := by
    intro h8
    rw [cursorBefore, if_neg h8]
  rw [writtenChar]
  rw [hbefore.screenPage t |>.symm] at hpage
  have ht₁ := hbefore.paging ▸ ht
  dsimp only
  rw [← hvram]
  generalize d.cursorBefore c t = d₁ at hpage ht₁ hsame ⊢
  generalize hd₂ : (d₁.screenSeek (d₁.terms t).cursor).drawGlyph page (glyph c) = d₂
  have hdrawn : d₂.vram = writeCell page (d₁.terms t).cursor (glyph c) d₁.vram := by
    rw [← hd₂, drawGlyph, if_neg hc]
    rfl
  have hon : OnScreen t d₁ d₂ := by
    rw [← hd₂]
    exact (screenSeek_on t d₁ _).trans (drawGlyph_on (d := d₁.screenSeek _) hpage _)
  have hterms : d₂.terms = d₁.terms := by
    rw [← hd₂, drawGlyph_terms]
    rfl
  rw [cursorAfter_eq, ← hdrawn]
  by_cases h8 : c = 8
  · rw [if_pos h8, if_neg fun h => h.1 h8]
    rfl
  · have hnext : ((d₂.advance c t).terms t).cursor = nextCursor c (d.terms t).cursor := by
      rw [advance, setCursor_cursor, hterms, hsame h8]
    rw [if_neg h8, hnext]
    by_cases hend : nextCursor c (d.terms t).cursor = ⟨0, 0⟩
    · -- `pan` moves the page in which the cell was filled
      have hframe := pan_frame (d := d₂.advance c t) (hon.paging.symm ▸ ht₁) h3
      have hsame₂ : (d₂.advance c t).screenPage t = page := (hon.screenPage t).trans hpage.symm
      rw [if_pos hend, if_pos ⟨h8, hend⟩, pan_eq]
      change ((d₂.advance c t).scroll panRows t).vram = _
      rw [scroll, hframe, hsame₂]
      rfl
    · rw [if_neg hend, if_neg fun h => hend h.2]
      rfl

/-- The patch of `terminal_write` changes one address in the page table. -/
lemma writePatch_eq (d : Display) : ∃ table, d.writePatch
      = { d with paging := { d.paging with pageTable0 := table } } ∧
    (table = d.paging.pageTable0 ∨
      d.scheduledTerm ≠ d.visibleTerm ∧ d.frame videoMemAddr = 0xB8 ∧
        table = setPteAddr videoMemAddr (0xB9 + d.scheduledTerm) d.paging.pageTable0) := by
  rw [writePatch]
  split
  · rename_i h
    exact ⟨_, rfl, Or.inr ⟨h.1, h.2, rfl⟩⟩
  · exact ⟨_, rfl, Or.inl rfl⟩

lemma VideoTables.setAddr {pg : Paging} (ht : VideoTables pg) (a b : ℕ) : VideoTables
    { pg with pageTable0 := setPteAddr videoMemAddr a pg.pageTable0,
              userVidmapTable := setPteAddr videoMemAddr b pg.userVidmapTable } := by
  have hother : ∀ i, i ≠ 0xB8 → setPteAddr videoMemAddr a pg.pageTable0 i = pg.pageTable0 i :=
    fun i hi => Function.update_of_ne hi ..
  refine ⟨?_, fun t h3 => ?_, ?_, ?_⟩
  · dsimp only
    rw [hother _ (by decide)]
    exact ht.fixed
  · dsimp only
    rw [hother _ (by omega)]
    exact ht.back t h3
  · dsimp only
    rw [show (0xB8 : ℕ) = videoMemAddr from rfl, setPteAddr_self]
    exact ht.kernel
  · dsimp only
    rw [show (0xB8 : ℕ) = videoMemAddr from rfl, setPteAddr_self]
    exact ht.program

lemma VideoTables.writePatch (ht : VideoTables d.paging) : VideoTables d.writePatch.paging := by
  obtain ⟨table, heq, hcases⟩ := writePatch_eq d
  rw [heq]
  rcases hcases with rfl | ⟨-, -, rfl⟩
  · exact ht
  · have hset := ht.setAddr (0xB9 + d.scheduledTerm) (d.paging.userVidmapTable videoMemAddr).addr
    have hself : setPteAddr videoMemAddr (d.paging.userVidmapTable videoMemAddr).addr
        d.paging.userVidmapTable = d.paging.userVidmapTable := Function.update_eq_self ..
    rw [hself] at hset
    exact hset

/-- A byte written through `0xB7000` to the visible terminal. -/
lemma writeChar_visible (ht : VideoTables d.paging) (hc : c ≠ 0)
    (hcur : (d.terms d.visibleTerm).cursor.InRange)
    (hback : c = 8 → (d.terms d.visibleTerm).cursor ≠ ⟨0, 0⟩) :
    d.writeChar true d.visibleTerm c = .ok (d.writtenChar 0xB8 d.visibleTerm c) := by
  have hp := cursorBefore_inRange hcur hback
  have hbefore := cursorBefore_on c d.visibleTerm d
  rw [writeChar, if_neg hc, writtenChar]
  dsimp only
  generalize d.visibleTerm = t at hp hbefore ⊢
  generalize d.cursorBefore c t = d₁ at hp hbefore ⊢
  rw [← hbefore.paging] at ht
  have hput : (d₁.screenSeek (d₁.terms t).cursor).put true (glyph c)
      = .ok ((d₁.screenSeek (d₁.terms t).cursor).drawGlyph 0xB8 (glyph c)) := by
    rw [put, if_pos rfl]
    exact putcAt_eq (n := 0xB7) (d := d₁.screenSeek (d₁.terms t).cursor) ht.fixed.1 ht.fixed.2
      hp.2 hp.1.le c
  rw [hput]
  rfl

/-- What the echo of a byte does. -/
lemma echo_eq (ht : VideoTables d.paging) (hcur : (d.terms d.visibleTerm).cursor.InRange)
    (hback : c = 8 → (d.terms d.visibleTerm).cursor ≠ ⟨0, 0⟩) :
    d.echo c = .ok ((if c = 0 then d.writePatch else d.writePatch.writtenChar 0xB8 d.visibleTerm c)
      |>.updateCursor d.visibleTerm) := by
  have ht' := ht.writePatch
  have hvisible := writePatch_visibleTerm d
  have hterms := writePatch_terms d
  have hone : (List.range (1 : Int32).toInt.toNat).map (fun _ => c) = [c] := rfl
  rw [echo, terminalWrite]
  generalize d.writePatch = d₁ at ht' hvisible hterms ⊢
  rw [← hterms, ← hvisible] at hcur hback
  simp only [decide_true, if_true, hone, writeLoop, true_or, hvisible]
  by_cases hc : c = 0
  · subst hc
    rfl
  · have hwrite := writeChar_visible ht' hc hcur hback
    rw [hvisible] at hwrite
    rw [hwrite, if_neg hc]
    rfl

/-! ### Ticks and switches -/

/-- `d'` is `d` after a tick: the next terminal is scheduled, the page tables map its screen,
and a hidden terminal gets the console back at its cursor. -/
structure Advanced (d d' : Display) : Prop where
  scheduledTerm : d'.scheduledTerm = (d.scheduledTerm + 1) % numTtys
  visibleTerm : d'.visibleTerm = d.visibleTerm
  terms : d'.terms = d.terms
  vram : d'.vram = d.vram
  paging : d'.paging = { d.paging with
    pageTable0 := setPteAddr videoMemAddr (d.screenPage d'.scheduledTerm) d.paging.pageTable0,
    userVidmapTable :=
      setPteAddr videoMemAddr (d.screenPage d'.scheduledTerm) d.paging.userVidmapTable }
  console : d'.scheduledTerm = d.visibleTerm ∧ d'.screenX = d.screenX ∧ d'.screenY = d.screenY ∨
    d'.scheduledTerm ≠ d.visibleTerm ∧ d'.screenX = (d.terms d'.scheduledTerm).cursor.col ∧
      d'.screenY = (d.terms d'.scheduledTerm).cursor.row

lemma pitAdvance_advanced (d : Display) : Advanced d d.pitAdvance := by
  rw [pitAdvance]
  dsimp only
  split
  · rename_i heq
    refine ⟨rfl, rfl, rfl, rfl, ?_, Or.inl ⟨heq, rfl, rfl⟩⟩
    have hpage : d.screenPage ((d.scheduledTerm + 1) % numTtys) = videoMemAddr := if_pos heq
    simp only [mapVideo, hpage]
  · rename_i hne
    refine ⟨rfl, rfl, rfl, rfl, ?_, Or.inr ⟨hne, rfl, rfl⟩⟩
    have hpage : d.screenPage ((d.scheduledTerm + 1) % numTtys)
        = videoMemAddr + ((d.scheduledTerm + 1) % numTtys + 1) := by
      rw [screenPage, if_neg hne, videoMemAddr]
      omega
    simp only [mapVideo, screenSeek, hpage]

/-- What `term_switch` changes up to the `sti` in it. -/
lemma showTerm_fields (t : ℕ) (d : Display) :
    (d.showTerm t).scheduledTerm = d.scheduledTerm ∧ (d.showTerm t).visibleTerm = t ∧
    (d.showTerm t).terms = d.terms ∧ (d.showTerm t).paging = d.paging ∧
    (d.showTerm t).screenX = 0 ∧ (d.showTerm t).screenY = 0 :=
  ⟨rfl, rfl, rfl, rfl, rfl, rfl⟩

/-- The number of a terminal is drawn. -/
lemma drawStatus_drawn (d : Display) : Drawn d d.drawStatus :=
  ⟨rfl, rfl, rfl, fun _ => rfl, fun _ => rfl⟩

/-- What `term_switch` changes, when the terminal is not the visible one. -/
lemma termSwitch_fields {t : ℕ} (hne : t ≠ d.visibleTerm) :
    (d.termSwitch t).scheduledTerm = d.scheduledTerm ∧ (d.termSwitch t).visibleTerm = t ∧
    (d.termSwitch t).terms = d.terms ∧ (d.termSwitch t).paging = d.paging ∧
    (d.termSwitch t).screenX = 0 ∧ (d.termSwitch t).screenY = 0 := by
  rw [termSwitch, if_neg hne]
  exact ⟨rfl, rfl, rfl, rfl, rfl, rfl⟩

end

/-- The tables of `init_paging`. -/
lemma tables_boot (l : Layout) (pg : Paging) (vram : ℕ → ℕ → UInt8) (mem : ℤ → Pcb) :
    VideoTables (entryState l pg vram mem).paging := by
  have hb7 := initPageTable0_apply pg.pageTable0 (i := 0xB7) (by decide)
  have hb8 := initPageTable0_apply pg.pageTable0 (i := 0xB8) (by decide)
  have hvid := initVidmapTable_apply pg.userVidmapTable (i := 0xB8) (by decide)
  refine ⟨?_, fun t h3 => ?_, ?_, ?_⟩
  · change (initPageTable0 pg.pageTable0 0xB7).present ∧ (initPageTable0 pg.pageTable0 0xB7).addr = _
    rw [hb7]
    exact ⟨rfl, rfl⟩
  · have hlt : t < 3 := h3
    have hback := initPageTable0_apply pg.pageTable0 (i := 0xB9 + t) (by omega)
    rw [if_neg (by omega), if_pos (by omega)] at hback
    change (initPageTable0 pg.pageTable0 (0xB9 + t)).addr = _
    rw [hback]
    rfl
  · change (initPageTable0 pg.pageTable0 0xB8).present
    rw [hb8]
    rfl
  · change (initVidmapTable pg.userVidmapTable 0xB8).present
    rw [hvid]
    rfl

end Display

end WnajOS
