import WnajOS.Board
import WnajOS.LineSteps
import WnajOS.Preemption
import WnajOS.Writing

/-!
# The cursors stay on the screen

Programs write any bytes, keys are echoed, the screen is cleared and terminals are switched, in any
order.  The row of a cursor is a byte that `cursor_decrement` takes from 0 to 255: a backspace at
the first position of a screen sends the cursor, and the stores of `putc`, far beyond it.  No
other byte does, wherever the cursor is.
-/

namespace WnajOS

open LineDiscipline

/-! ### Keys -/

namespace Input

/-- The byte that is echoed after a byte was stored at the end of the line. -/
def typedByte (inp : Input) (chr : UInt8) : UInt8 :=
  let inp := inp.store inp.idx.toNat chr
  inp.buffer inp.idx.toNat

lemma typedByte_of_lt {inp : Input} (chr : UInt8) (h : inp.idx.toNat < inputBufferSize) :
    inp.typedByte chr = chr := by
  rw [typedByte, store, if_pos h]
  exact Function.update_self ..

/-- The bytes that the loop of the tabulator key echoes. -/
def tabEchoes : ℕ → Input → List UInt8
  | 0, _ => []
  | n + 1, inp =>
    if inp.idx.toNat < inputBufferSize - 2 then inp.typedByte 0x20 :: tabEchoes n (inp.type 0x20)
    else []

/-- The bytes that the handler echoes. -/
def echoes (inp : Input) : Key UInt8 → List UInt8
  | .insert chr => if inp.idx.toNat < inputBufferSize - 2 then [inp.typedByte chr] else []
  | .tab => inp.tabEchoes 4
  | .erase => if inp.idx ≠ 0 then [8] else []
  | .enter => [inp.typedByte 10]

end Input

namespace Display

/-- The cells in which a text is stored that a handler writes to the visible terminal. -/
def textCells (cs : List UInt8) (d : Display) : List ℕ :=
  writeCells true d.visibleTerm cs d.writePatch

/-- The cells in which the echo of a byte stores, after it was stored in the line. -/
def typeCells (chr : UInt8) (d : Display) : List ℕ :=
  let inp := d.line.store d.line.idx.toNat chr
  textCells [inp.buffer inp.idx.toNat] (d.setLine { inp with idx := inp.idx + 1 })

/-- The cells in which the loop of the tabulator key stores. -/
def tabCells : ℕ → Display → List ℕ
  | 0, _ => []
  | n + 1, d =>
    if d.line.idx.toNat < inputBufferSize - 2 then
      typeCells 0x20 d ++
        match typeChar 0x20 d with
        | .ok d' => tabCells n d'
        | .error _ => []
    else []

/-- The cells in which the echoes of a key store. -/
def keyCells (control : Bool) (chr : UInt8) (d : Display) : List ℕ :=
  match lineKey control chr with
  | some (.insert chr) => if d.line.idx.toNat < inputBufferSize - 2 then typeCells chr d else []
  | some .tab => tabCells 4 d
  | some .erase => if d.line.idx ≠ 0 then textCells [8] (d.setLine d.line.erase) else []
  | some .enter => typeCells 10 d
  | none => []

/-- The bytes that a key echoes. -/
def keyEchoes (control : Bool) (chr : UInt8) (d : Display) : List UInt8 :=
  match lineKey control chr with
  | some k => d.line.echoes k
  | none => []

/-- `d'` is `d` after the echoes `cs`, as far as the cursors and video memory are concerned: the
bytes are stored in the cells of the visible page. -/
structure Echoed (cs : List UInt8) (cells : List ℕ) (d d' : Display) : Prop where
  visibleTerm : d'.visibleTerm = d.visibleTerm
  tables : VideoTables d'.paging
  cursor : ∀ t, (d'.terms t).cursor =
    if t = d.visibleTerm then cs.foldl Cursor.step (d.terms t).cursor else (d.terms t).cursor
  stored : StoredIn 0xB8 cells d.vram d'.vram

/-- The page tables map the screens, and the cursor of the visible terminal is on its screen. -/
structure Ready (d : Display) : Prop where
  tables : VideoTables d.paging
  cursor : (d.terms d.visibleTerm).cursor.InRange

section

variable {d d' d'' : Display} {cs cs' : List UInt8} {cells cells' : List ℕ} {c : UInt8}

namespace Echoed

lemma nil (ht : VideoTables d'.paging) (hv : d'.visibleTerm = d.visibleTerm)
    (hcur : ∀ t, (d'.terms t).cursor = (d.terms t).cursor) (hvram : d'.vram = d.vram) :
    Echoed [] [] d d' := by
  refine ⟨hv, ht, fun t => ?_, hvram ▸ .nil _⟩
  rw [hcur, List.foldl_nil, ite_self]

lemma self (h : Echoed cs cells d d') :
    (d'.terms d'.visibleTerm).cursor = cs.foldl Cursor.step (d.terms d.visibleTerm).cursor := by
  rw [h.cursor, h.visibleTerm, if_pos rfl]

lemma trans (h : Echoed cs cells d d') (h' : Echoed cs' cells' d' d'') :
    Echoed (cs ++ cs') (cells ++ cells') d d'' := by
  refine ⟨h'.visibleTerm.trans h.visibleTerm, h'.tables, fun t => ?_, h.stored.append h'.stored⟩
  rw [h'.cursor, h.cursor, h.visibleTerm, List.foldl_append]
  split
  · rfl
  · rfl

lemma ready (h : Echoed cs cells d d') (hr : d.Ready)
    (hstays : (d.terms d.visibleTerm).cursor.Stays cs) : d'.Ready :=
  ⟨h.tables, h.self ▸ hstays.inRange hr.cursor⟩

end Echoed

lemma Ready.setLine (h : d.Ready) (inp : Input) : Echoed [] [] d (d.setLine inp) := by
  refine .nil h.tables rfl (fun t => ?_) rfl
  by_cases ht : t = d.visibleTerm
  · subst ht
    simp only [Display.setLine, Function.update_self]
  · simp only [Display.setLine, Function.update_of_ne ht]

/-- **A text on the visible terminal** does not fault, unless a backspace comes at the first
position. -/
lemma Ready.showText (h : d.Ready) (hstays : (d.terms d.visibleTerm).cursor.Stays cs) :
    ∃ d', d.showText cs = .ok d' ∧ Echoed cs (textCells cs d) d d' := by
  have htables := h.tables.writePatch
  have hterms := writePatch_terms d
  have hvram := writePatch_vram d
  have hvisible := writePatch_visibleTerm d
  have hpage : d.writePatch.writeFrame true = 0xB8 := htables.fixed.2
  rw [Display.showText, textCells]
  have hcur := h.cursor
  rw [← hterms] at hcur hstays
  obtain ⟨hloop, hwrote⟩ := writeLoop_wrote true htables hcur hstays
  have hstored := writeCells_stored true htables hcur hstays
  rw [hpage] at hloop hwrote hstored
  rw [hloop]
  refine ⟨_, rfl, hwrote.drawn.visibleTerm.trans hvisible, ?_, fun t => ?_, ?_⟩
  · change VideoTables (d.writePatch.written 0xB8 d.visibleTerm cs).paging
    rw [hwrote.drawn.paging]
    exact htables
  · change ((d.writePatch.written 0xB8 d.visibleTerm cs).terms t).cursor = _
    rw [hwrote.cursor, hterms]
    split
    · rename_i ht
      rw [ht]
    · rfl
  · rw [← hvram]
    exact hstored

lemma Ready.textCells (h : d.Ready) (cs : List UInt8) : (∀ cell ∈ textCells cs d, InText cell) ↔
    (d.terms d.visibleTerm).cursor.Stays cs := by
  have hcur := h.cursor
  rw [← writePatch_terms d] at hcur
  have hcells : (∀ cell ∈ Display.textCells cs d, InText cell) ↔ _ :=
    writeCells_inText true h.tables.writePatch hcur
  rw [writePatch_terms] at hcells
  exact hcells

/-- The echo of a byte. -/
lemma Ready.echo (h : d.Ready) (hback : c = 8 → (d.terms d.visibleTerm).cursor ≠ ⟨0, 0⟩) :
    ∃ d', d.echo c = .ok d' ∧ Echoed [c] (Display.textCells [c] d) d d' := by
  rw [echo_eq_showText]
  exact h.showText ⟨hback, trivial⟩

lemma Ready.type (h : d.Ready) (chr : UInt8)
    (hstays : (d.terms d.visibleTerm).cursor.Stays [d.line.typedByte chr]) :
    ∃ d', typeChar chr d = .ok d' ∧
      Echoed [d.line.typedByte chr] (Display.typeCells chr d) d d' := by
  let inp := d.line.store d.line.idx.toNat chr
  have hset := h.setLine { inp with idx := inp.idx + 1 }
  have hready := hset.ready h trivial
  have hself : ((d.setLine { inp with idx := inp.idx + 1 }).terms
      (d.setLine { inp with idx := inp.idx + 1 }).visibleTerm).cursor =
        (d.terms d.visibleTerm).cursor := hset.self
  obtain ⟨d', heq, hecho⟩ := hready.echo (c := d.line.typedByte chr) (by
    rw [hself]
    exact hstays.1)
  exact ⟨d', heq, hset.trans hecho⟩

lemma Ready.typeCells (h : d.Ready) (chr : UInt8) : (∀ cell ∈ typeCells chr d, InText cell) ↔
    (d.terms d.visibleTerm).cursor.Stays [d.line.typedByte chr] := by
  let inp := d.line.store d.line.idx.toNat chr
  have hset := h.setLine { inp with idx := inp.idx + 1 }
  have hself : ((d.setLine { inp with idx := inp.idx + 1 }).terms
      (d.setLine { inp with idx := inp.idx + 1 }).visibleTerm).cursor =
        (d.terms d.visibleTerm).cursor := hset.self
  have hcells := (hset.ready h trivial).textCells [d.line.typedByte chr]
  rw [hself] at hcells
  exact hcells

/-- The loop of the tabulator key. -/
lemma Ready.tab (n : ℕ) (h : d.Ready)
    (hstays : (d.terms d.visibleTerm).cursor.Stays (d.line.tabEchoes n)) :
    ∃ d', typeTab n d = .ok d' ∧
      Echoed (d.line.tabEchoes n) (Display.tabCells n d) d d' := by
  induction n generalizing d with
  | zero => exact ⟨d, rfl, .nil h.tables rfl (fun _ => rfl) rfl⟩
  | succ n ih =>
    rw [Input.tabEchoes] at hstays ⊢
    rw [typeTab, Display.tabCells]
    by_cases hlt : d.line.idx.toNat < inputBufferSize - 2
    · rw [if_pos hlt] at hstays ⊢
      rw [if_pos hlt, if_pos hlt]
      obtain ⟨d₁, heq, hecho⟩ := h.type 0x20 ⟨hstays.1, trivial⟩
      have hline : d₁.line = d.line.type 0x20 := by
        have hset := typeChar_setsLine 0x20 d
        rw [heq] at hset
        exact hset.line
      have hrest := hstays.2
      rw [← hline] at hrest ⊢
      obtain ⟨d', htab, hechoed⟩ := ih (hecho.ready h ⟨hstays.1, trivial⟩) (by
        rw [hecho.self]
        exact hrest)
      rw [heq]
      exact ⟨d', htab, hecho.trans hechoed⟩
    · rw [if_neg hlt]
      rw [if_neg hlt, if_neg hlt]
      exact ⟨d, rfl, .nil h.tables rfl (fun _ => rfl) rfl⟩

lemma Ready.tabCells (n : ℕ) (h : d.Ready) : (∀ cell ∈ tabCells n d, InText cell) ↔
    (d.terms d.visibleTerm).cursor.Stays (d.line.tabEchoes n) := by
  induction n generalizing d with
  | zero => exact ⟨fun _ => trivial, fun _ cell hc => absurd hc List.not_mem_nil⟩
  | succ n ih =>
    rw [Display.tabCells, Input.tabEchoes]
    by_cases hlt : d.line.idx.toNat < inputBufferSize - 2
    · rw [if_pos hlt, if_pos hlt, List.forall_mem_append, h.typeCells 0x20]
      have hone : (d.terms d.visibleTerm).cursor.Stays [d.line.typedByte 0x20] ↔
          (d.line.typedByte 0x20 = 8 → (d.terms d.visibleTerm).cursor ≠ ⟨0, 0⟩) :=
        and_iff_left trivial
      rw [hone, Cursor.Stays]
      refine and_congr_right fun hback => ?_
      obtain ⟨d₁, heq, hecho⟩ := h.type 0x20 ⟨hback, trivial⟩
      have hline : d₁.line = d.line.type 0x20 := by
        have hset := typeChar_setsLine 0x20 d
        rw [heq] at hset
        exact hset.line
      have hih := ih (hecho.ready h ⟨hback, trivial⟩)
      rw [hecho.self, hline] at hih
      rw [heq]
      exact hih
    · rw [if_neg hlt, if_neg hlt]
      exact ⟨fun _ => trivial, fun _ cell hc => absurd hc List.not_mem_nil⟩

/-- **The cells of a key** are in the 24 rows if and only if its echoes stay on the screen. -/
lemma Ready.keyCells (h : d.Ready) (control : Bool) (chr : UInt8) :
    (∀ cell ∈ keyCells control chr d, InText cell) ↔
      (d.terms d.visibleTerm).cursor.Stays (d.keyEchoes control chr) := by
  have hnone : ∀ cell ∈ ([] : List ℕ), InText cell := fun cell hc => absurd hc List.not_mem_nil
  rw [Display.keyCells, keyEchoes]
  cases lineKey control chr with
  | none => exact ⟨fun _ => trivial, fun _ => hnone⟩
  | some k =>
    cases k with
    | insert c =>
      dsimp only
      rw [Input.echoes]
      split
      · exact h.typeCells _
      · exact ⟨fun _ => trivial, fun _ => hnone⟩
    | tab => exact h.tabCells 4
    | erase =>
      dsimp only
      rw [Input.echoes]
      split
      · have hset := h.setLine d.line.erase
        have hcells := (hset.ready h trivial).textCells [8]
        rw [hset.self] at hcells
        exact hcells
      · exact ⟨fun _ => trivial, fun _ => hnone⟩
    | enter => exact h.typeCells _

/-- **A key whose echoes stay on the screen.**  The handler returns. -/
theorem Ready.keyStroke (h : d.Ready) {control : Bool} {chr : UInt8} {k : Key UInt8}
    (hk : lineKey control chr = some k)
    (hstays : (d.terms d.visibleTerm).cursor.Stays (d.keyEchoes control chr)) :
    ∃ d', d.keyboardHandler control chr = .ok d' ∧
      Echoed (d.keyEchoes control chr) (d.keyCells control chr) d d' := by
  have hnothing : Echoed [] [] d d := .nil h.tables rfl (fun _ => rfl) rfl
  rw [keyEchoes, hk] at hstays
  rw [keyEchoes, Display.keyCells, keyboardHandler_of_lineKey hk, hk]
  dsimp only at hstays ⊢
  cases k with
  | insert c =>
    rw [Input.echoes] at hstays ⊢
    rw [Display.keyStroke]
    split
    · rename_i hlt
      rw [if_pos hlt] at hstays
      exact h.type _ hstays
    · exact ⟨d, rfl, hnothing⟩
  | tab => exact h.tab 4 hstays
  | erase =>
    rw [Input.echoes] at hstays ⊢
    rw [Display.keyStroke]
    split
    · rename_i hne
      rw [if_pos hne] at hstays
      have hset := h.setLine d.line.erase
      have hready := hset.ready h trivial
      obtain ⟨d', heq, hecho⟩ := hready.echo (c := 8) (by
        rw [hset.self]
        exact hstays.1)
      exact ⟨d', heq, hset.trans hecho⟩
    · exact ⟨d, rfl, hnothing⟩
  | enter =>
    obtain ⟨d₁, heq, hecho⟩ := h.type _ hstays
    have hset := (hecho.ready h hstays).setLine { d₁.line with eol := true }
    refine ⟨d₁.setLine { d₁.line with eol := true }, ?_, ?_⟩
    · rw [Display.keyStroke, heq]
      rfl
    · have hboth := hecho.trans hset
      rwa [List.append_nil, List.append_nil] at hboth

end

end Display

/-! ### Steps -/

/-- The page tables after a key. -/
lemma Display.Kept.tables {d d' : Display} (h : Display.Kept d d') (ht : VideoTables d.paging) :
    VideoTables d'.paging := by
  have hset := ht.setAddr (0xB9 + d.scheduledTerm) (d.paging.userVidmapTable videoMemAddr).addr
  constructor
  · rcases h.pageTable0 with h0 | h0
    · exact h0 ▸ ht.fixed
    · exact h0 ▸ hset.fixed
  · rcases h.pageTable0 with h0 | h0
    · exact h0 ▸ ht.back
    · exact h0 ▸ hset.back
  · rcases h.pageTable0 with h0 | h0
    · exact h0 ▸ ht.kernel
    · exact h0 ▸ hset.kernel
  · exact h.userVidmapTable ▸ ht.program

namespace BoardEvent

/-- The terminal that an event writes to. -/
def target (a : BoardEvent) (b : Board) : ℕ :=
  match a.event b with
  | .key _ _ => b.kernel.visibleTerm
  | .report => b.kernel.visibleTerm
  | _ => b.kernel.scheduledTerm

/-- The bytes that an event writes: the echoes of a key, a text of `report_error`, or that of a
`terminal_write`. -/
def text (a : BoardEvent) (b : Board) : List UInt8 :=
  match a.event b with
  | .key control chr => b.kernel.toDisplay.keyEchoes control chr
  | .report => (Event.report.printed? b.kernel).getD []
  | e => (e.written? b.kernel).getD []

/-- The cells in which the event stores. -/
def cells (a : BoardEvent) (b : Board) : List ℕ :=
  match a.event b with
  | .key control chr => b.kernel.toDisplay.keyCells control chr
  | .report => b.kernel.toDisplay.textCells ((Event.report.printed? b.kernel).getD [])
  | e =>
    let d := b.kernel.toDisplay.writePatch
    Display.writeCells false d.scheduledTerm ((e.written? b.kernel).getD []) d

/-- An event that is neither a key nor a report writes what its process writes. -/
lemma written_of {a : BoardEvent} {b : Board} {w : Option (List UInt8)}
    (hkey : (a.event b).isKey = false) (hreport : (a.event b).printed? b.kernel = none)
    (hw : (a.event b).written? b.kernel = w) : a.text b = w.getD [] ∧
      (a.text b ≠ [] → a.target b = b.kernel.scheduledTerm ∧ a.cells b =
        Display.writeCells false b.kernel.toDisplay.writePatch.scheduledTerm (w.getD [])
          b.kernel.toDisplay.writePatch) := by
  rw [text, target, cells]
  cases ha : a.event b with
  | key control chr =>
    rw [ha] at hkey
    exact absurd hkey (by simp [Event.isKey])
  | report =>
    rw [ha] at hreport hw
    obtain rfl : none = w := hw
    dsimp only
    rw [hreport]
    exact ⟨rfl, fun hne => absurd rfl hne⟩
  | _ =>
    rw [ha] at hw
    rw [← hw]
    exact ⟨rfl, fun _ => ⟨rfl, rfl⟩⟩

end BoardEvent

/-- The cursor of a terminal. -/
def Board.cursor (b : Board) (t : ℕ) : Cursor := (b.kernel.terms t).cursor

/-- No backspace of an event comes at the first position of its screen. -/
def BacksStay (a : BoardEvent) (b : Board) : Prop := (b.cursor (a.target b)).Stays (a.text b)

instance (a : BoardEvent) (b : Board) : Decidable (BacksStay a b) :=
  inferInstanceAs (Decidable (Cursor.Stays _ _))

/-- Every cursor is on its screen. -/
def Board.OnScreen (b : Board) : Prop := ∀ t, (b.cursor t).InRange

/-- An event that writes stores its text in its cells of one page of video memory, and changes no
other byte but by moving screens up. -/
def StoresCells (a : BoardEvent) (b b' : Board) : Prop :=
  a.text b ≠ [] → ∃ page, Display.StoredIn page (a.cells b) b.kernel.vram b'.kernel.vram

/-- The event stores inside the text area of a page, and the cursors stay on their screens. -/
def StaysOnScreen (a : BoardEvent) (b b' : Board) : Prop :=
  (∀ cell ∈ a.cells b, Display.InText cell) ∧ StoresCells a b b' ∧ b'.OnScreen

/-- The cursors are on their screens, and the page tables map the screens. -/
structure Board.Sound (b : Board) : Prop where
  onScreen : b.OnScreen
  tables : Display.VideoTables b.kernel.paging

namespace Board.Sound

variable {img : Image} {a : BoardEvent} {b b' : Board}

lemma ready (h : b.Sound) : b.kernel.toDisplay.Ready := ⟨h.tables, h.onScreen _⟩

/-- **The cells of an event.** -/
lemma cells (h : b.Sound) : (∀ cell ∈ a.cells b, Display.InText cell) ↔ BacksStay a b := by
  have htables := h.tables.writePatch
  have hwrite : ∀ cs, (∀ cell ∈ Display.writeCells false
      b.kernel.toDisplay.writePatch.scheduledTerm cs b.kernel.toDisplay.writePatch,
        Display.InText cell) ↔
      (b.cursor b.kernel.scheduledTerm).Stays cs := by
    obtain ⟨table, hp, -⟩ := Display.writePatch_eq b.kernel.toDisplay
    rw [hp] at htables ⊢
    exact fun cs => Display.writeCells_inText false htables (h.onScreen _)
  rw [BoardEvent.cells, BacksStay, BoardEvent.target, BoardEvent.text]
  cases a.event b with
  | key control chr => exact h.ready.keyCells control chr
  | report => exact h.ready.textCells _
  | _ => exact hwrite _

/-- The cursors after a text. -/
lemma of_cursor {t : ℕ} {cs : List UInt8} (h : b.Sound)
    (htables : Display.VideoTables b'.kernel.paging) (hstays : (b.cursor t).Stays cs)
    (hcur : ∀ u, b'.cursor u = if u = t then cs.foldl Cursor.step (b.cursor u) else b.cursor u) :
    b'.Sound := by
  refine ⟨fun u => ?_, htables⟩
  rw [hcur]
  split
  · rename_i hu
    subst hu
    exact hstays.inRange (h.onScreen u)
  · exact h.onScreen u

/-- The cursors and the page tables are the same. -/
lemma same (h : b.Sound) (hcur : ∀ t, b'.cursor t = b.cursor t)
    (htables : Display.VideoTables b'.kernel.paging) : b'.Sound :=
  ⟨fun t => hcur t ▸ h.onScreen t, htables⟩

/-- A `terminal_read` empties a line, and moves no cursor. -/
lemma read (h : b.Sound) (b' : Board) {inp : Input}
    (hd : b'.kernel.toDisplay = (b.kernel.setInput inp).toDisplay) : b'.Sound := by
  refine h.same (fun t => ?_) ?_
  · rw [Board.cursor, show b'.kernel.terms = b'.kernel.toDisplay.terms from rfl, hd]
    by_cases ht : t = b.kernel.scheduledTerm
    · subst ht
      simp only [Kernel.setInput, Function.update_self]
      rfl
    · simp only [Kernel.setInput, Function.update_of_ne ht]
      rfl
  · rw [show b'.kernel.paging = b'.kernel.toDisplay.paging from rfl, hd]
    exact h.tables

/-- A `terminal_write` of a text without a backspace at the first position. -/
lemma write (h : b.Sound) (b' : Board) {cs : List UInt8}
    (htext : (b.cursor b.kernel.scheduledTerm).Stays cs)
    (hend : b.kernel.toDisplay.writeTerm cs = .ok b'.kernel.toDisplay ∨
      b.kernel.toDisplay.writeTerm cs = .error b'.kernel.toDisplay) :
    b'.Sound ∧ ∃ page, Display.StoredIn page (Display.writeCells false
      b.kernel.toDisplay.writePatch.scheduledTerm cs b.kernel.toDisplay.writePatch)
        b.kernel.vram b'.kernel.vram := by
  obtain ⟨d, hends, hterms, hpaging, hvram⟩ := Display.writeTerm_ends hend
  have htables := h.tables.writePatch
  obtain ⟨table, hp, -⟩ := Display.writePatch_eq b.kernel.toDisplay
  rw [hp] at htables hends ⊢
  obtain ⟨hloop, hwrote⟩ := Display.writeLoop_wrote false htables (h.onScreen _) htext
  have hstored := Display.writeCells_stored false htables (h.onScreen _) htext
  generalize hpage : Display.writeFrame false _ = page at hloop hwrote hstored
  generalize Display.written _ _ _ _ = d₁ at hloop hwrote hstored
  have hd : d₁ = d := by
    rcases hends with hends | hends
    · exact Except.ok.inj (hloop.symm.trans hends)
    · exact absurd (hloop.symm.trans hends) (by simp)
  subst hd
  constructor
  · refine h.of_cursor (t := b.kernel.scheduledTerm) ?_ htext fun u => ?_
    · rw [show b'.kernel.paging = b'.kernel.toDisplay.paging from rfl, hpaging,
        hwrote.drawn.paging]
      exact htables
    · rw [Board.cursor, show b'.kernel.terms = b'.kernel.toDisplay.terms from rfl, hterms,
        hwrote.cursor]
      split
      · rename_i hu
        rw [hu]
        rfl
      · rfl
  · refine ⟨page, ?_⟩
    rw [show b'.kernel.vram = b'.kernel.toDisplay.vram from rfl, hvram]
    exact hstored

/-- A text that is echoed or printed on the visible terminal. -/
lemma echoed (h : b.Sound) (b' : Board) {cs : List UInt8} {cells : List ℕ}
    (hstays : (b.cursor b.kernel.visibleTerm).Stays cs)
    (hecho : Display.Echoed cs cells b.kernel.toDisplay b'.kernel.toDisplay) : b'.Sound :=
  h.of_cursor hecho.tables hstays hecho.cursor

/-- **One step** of the kernel. -/
lemma kernelStep (h : b.Sound) (hok : BacksStay a b) {k' : Kernel}
    (hk : WnajOS.step img (a.event b) b.kernel = some k') (mods : KbdMods) :
    Sound ⟨k', mods⟩ ∧ StoresCells a b ⟨k', mods⟩ := by
  -- the display after a handler that returns
  have hreturns : ∀ {r : Except Display Display} {d : Display}, r = .ok d →
      (r = .ok k'.toDisplay ∨ r = .error k'.toDisplay) → k'.toDisplay = d := by
    intro r d hr hend
    rcases hend with hend | hend
    · exact Except.ok.inj (hend.symm.trans hr)
    · exact absurd (hend.symm.trans hr) (by simp)
  cases step_terms hk with
  | @key control chr he hend =>
    rw [BacksStay, BoardEvent.target, BoardEvent.text, he] at hok
    rw [StoresCells, BoardEvent.text, BoardEvent.cells, he]
    dsimp only at hok ⊢
    cases hlk : lineKey control chr with
    | none =>
      -- a switch, Ctrl-L or a signal
      obtain ⟨d, hd, hterms, hpaging⟩ := Display.keyboardHandler_of_none hlk b.kernel.toDisplay
      have hdisplay : k'.toDisplay = d := by
        rcases hd with hd | ⟨hd, -⟩
        · exact hreturns hd hend
        · rcases hend with hend | hend
          · exact absurd (hend.symm.trans hd) (by simp)
          · exact Except.error.inj (hend.symm.trans hd)
      refine ⟨h.same (fun t => ?_) ?_, fun hne => absurd ?_ hne⟩
      · rw [Board.cursor, show k'.terms = k'.toDisplay.terms from rfl, hdisplay, hterms]
        rfl
      · rw [show k'.paging = k'.toDisplay.paging from rfl, hdisplay, hpaging]
        exact h.tables
      · rw [Display.keyEchoes, hlk]
    | some k =>
      obtain ⟨d, heq, hecho⟩ := h.ready.keyStroke hlk hok
      obtain rfl := hreturns heq hend
      exact ⟨h.echoed _ hok hecho, fun _ => ⟨0xB8, hecho.stored⟩⟩
  | @report cs he hprinted hclean hend =>
    rw [he] at hprinted
    rw [BacksStay, BoardEvent.target, BoardEvent.text, he] at hok
    rw [StoresCells, BoardEvent.text, BoardEvent.cells, he]
    dsimp only at hok ⊢
    rw [hprinted, Option.getD_some] at hok ⊢
    obtain ⟨d, heq, hecho⟩ := h.ready.showText hok
    obtain rfl := hreturns heq hend
    exact ⟨h.echoed _ hok hecho, fun _ => ⟨0xB8, hecho.stored⟩⟩
  | read hkey he hw hn heol hd =>
    obtain ⟨htext, -⟩ := BoardEvent.written_of hkey (Event.printed?_of_call he) hw
    exact ⟨h.read _ hd, fun hne => absurd htext hne⟩
  | @write cs hkey he hr hend =>
    obtain ⟨htext, hcells⟩ := BoardEvent.written_of hkey (Event.printed?_of_call he) he
    rw [Option.getD_some] at htext hcells
    rw [BacksStay, htext] at hok
    rw [StoresCells]
    have hstays : (b.cursor b.kernel.scheduledTerm).Stays cs := by
      by_cases hne : a.text b = []
      · rw [← htext, hne]
        trivial
      · rwa [(hcells hne).1] at hok
    obtain ⟨hsound, hstored⟩ := h.write ⟨k', mods⟩ hstays hend
    refine ⟨hsound, fun hne => ?_⟩
    rw [(hcells hne).2]
    exact hstored
  | kept hkey hr hw hprinted hsame =>
    obtain ⟨htext, -⟩ := BoardEvent.written_of hkey hprinted hw
    exact ⟨h.same hsame.cursor (hsame.tables h.tables), fun hne => absurd htext hne⟩

/-- **One step.** -/
lemma step (h : b.Sound) (hok : BacksStay a b) (hs : b.step img a = some b') :
    b'.Sound ∧ StoresCells a b b' := by
  rw [Board.step] at hs
  split at hs
  · obtain ⟨k', hk, rfl⟩ := Option.map_eq_some_iff.1 hs
    exact h.kernelStep hok hk _
  · exact absurd hs (by simp)

end Board.Sound

lemma sound_boot (l : Layout) (pg : Paging) (vram : ℕ → ℕ → UInt8) (mem : ℤ → Pcb) :
    (Board.boot l pg vram mem).Sound := by
  constructor
  · intro t
    exact ⟨Nat.zero_lt_succ 23, Nat.zero_lt_succ 79⟩
  · exact Display.tables_boot l pg vram mem

/-- **The cursors stay on the screen.**  In every run from boot in which no backspace comes at the
first position of a screen, every cursor is on its screen; and a step stores its text in the text
area of one page and leaves the cursors on their screens if and only if it meets that condition. -/
theorem cursors_on_screen (img : Image) (l : Layout) (pg : Paging) (vram : ℕ → ℕ → UInt8)
    (mem : ℤ → Pcb) (b : Board)
    (h : Runs.Reach (Board.step img) BacksStay (Board.boot l pg vram mem) b) :
    b.OnScreen ∧ ∀ a b', b.step img a = some b' → (StaysOnScreen a b b' ↔ BacksStay a b) := by
  have hsound : b.Sound := by
    refine h.invariant (P := Board.Sound) (sound_boot l pg vram mem) ?_
    exact fun a b₁ b₂ hb hok hs => (hb.step hok hs).1
  refine ⟨hsound.onScreen, fun a b' hs => ?_⟩
  constructor
  · intro hstays
    exact hsound.cells.1 hstays.1
  · intro hok
    obtain ⟨hnext, hstored⟩ := hsound.step hok hs
    exact ⟨hsound.cells.2 hok, hstored, hnext.onScreen⟩

/-- The first shell writes a text. -/
def shellWrites (cs : List UInt8) : List BoardEvent :=
  (bootShells ++ ([.tick, .begin (.write 1 (some fun i => cs.getD i 0) (Int32.ofNat cs.length)),
    .finish] : List Event)).map .other

/-- It writes 24 lines and goes back, then a line is typed and the screen cleared. -/
def writesAndTypes : List BoardEvent :=
  shellWrites (List.replicate 24 10 ++ [0x61, 9, 8, 8, 8]) ++
    ([.scancode 0x23, .scancode 0x0F, .scancode 0x0E, .scancode 0x1D, .scancode 0x26,
      .scancode 0x9D, .scancode 0x38, .scancode 0x3C] : List BoardEvent)

/-- The cursor is at the end of the row above the last one after the backspaces, and the keys move
it to the last row again. -/
theorem cursors_on_screen_typed : ∃ b,
    Runs.run (Board.step sampleImage) writesAndTypes sampleBoard = some b ∧
    b.kernel.visibleTerm = 1 ∧ b.cursor 0 = ⟨23, 3⟩ ∧ b.OnScreen := by
  have hrun : (Runs.run (Runs.guarded (Board.step sampleImage) BacksStay) writesAndTypes
      sampleBoard).any (fun b => b.kernel.visibleTerm = 1 ∧ b.cursor 0 = ⟨23, 3⟩) = true := by
    decide +kernel
  obtain ⟨b, hb, hstate⟩ := (Option.any_eq_true _ _).1 hrun
  obtain ⟨hvisible, hcur⟩ := of_decide_eq_true hstate
  exact ⟨b, Runs.run_of_guarded hb, hvisible, hcur,
    (cursors_on_screen sampleImage sampleLayout samplePaging _ _ b (Runs.reach_of_guarded hb)).1⟩

/-- The first byte that the shell writes is a backspace: the cell is that of row 255, a page fault,
and the cursor is left there. -/
theorem cursor_below_screen : ∃ b b',
    Runs.Reach (Board.step sampleImage) (fun _ _ => True) sampleBoard b ∧
    b.step sampleImage (.other .finish) = some b' ∧
    BoardEvent.cells (.other .finish) b = [(80 * 255 + 79) * 2] ∧
    b'.cursor 0 = ⟨255, 79⟩ ∧ ¬b'.OnScreen := by
  have hrun : (Runs.run (Board.step sampleImage) ((shellWrites [8]).dropLast) sampleBoard).any
      (fun b => BoardEvent.cells (.other .finish) b = [(80 * 255 + 79) * 2] ∧
        (b.step sampleImage (.other .finish)).any (fun b' => b'.cursor 0 = ⟨255, 79⟩)) = true := by
    decide +kernel
  obtain ⟨b, hb, hstate⟩ := (Option.any_eq_true _ _).1 hrun
  obtain ⟨hcells, hnext⟩ := of_decide_eq_true hstate
  obtain ⟨b', hb', hcur⟩ := (Option.any_eq_true _ _).1 hnext
  have hcur' := of_decide_eq_true hcur
  refine ⟨b, b', Runs.reach_of_run (fun _ _ => trivial) hb, hb', hcells, hcur', fun hon => ?_⟩
  have hrow := (hon 0).1
  rw [hcur'] at hrow
  exact absurd hrow (by decide)

/-! ### Preempted writers -/

/-- A step of the writer of the terminal `t` that is no backspace at the first position leaves
its cursor on the screen, and the other cursors where they are. -/
lemma Phase.run_cursor {t : ℕ} {d : Display} {phase : Phase} (enabled : Bool) (rest : List UInt8)
    (hcur : (d.terms t).cursor.InRange)
    (hback : phase = .next → rest.head? = some 8 → (d.terms t).cursor ≠ ⟨0, 0⟩) :
    ∃ d', ((phase.run t d enabled rest).map Prod.fst = .ok d' ∨
        (phase.run t d enabled rest).map Prod.fst = .error d') ∧
      (d'.terms t).cursor.InRange ∧ ∀ u, u ≠ t → (d'.terms u).cursor = (d.terms u).cursor := by
  cases phase with
  | next =>
    cases rest with
    | nil =>
      refine ⟨_, Or.inl rfl, ?_, fun u _ => ?_⟩
      · dsimp only
        split
        · exact hcur
        · exact hcur
      · dsimp only
        split
        · rfl
        · rfl
    | cons c cs =>
      rw [Phase.run]
      by_cases hc : c = 0
      · simp only [if_pos hc]
        exact ⟨d, Or.inl rfl, hcur, fun _ _ => rfl⟩
      · simp only [if_neg hc]
        refine ⟨d.cursorBefore c t, Or.inl rfl, ?_, fun u hu => ?_⟩
        · exact Display.cursorBefore_inRange hcur fun h8 => hback rfl (by rw [h8]; rfl)
        · rw [(Display.cursorBefore_on c t d).terms u hu]
  | setXY c p =>
    have hkeeps := Display.putcAt_keepsTerms vidmem (Display.glyph c) attrib d
    rw [Phase.run, Display.putc]
    cases hput : Display.putcAt vidmem (Display.glyph c) attrib d with
    | error d' =>
      rw [hput] at hkeeps
      exact ⟨d', Or.inr rfl, hkeeps.1 ▸ hcur, fun _ _ => by rw [hkeeps.1]⟩
    | ok d' =>
      rw [hput] at hkeeps
      exact ⟨d', Or.inl rfl, hkeeps.1 ▸ hcur, fun _ _ => by rw [hkeeps.1]⟩
  | drawn c p =>
    -- a backspace has moved the cursor before it was drawn, any other byte moves it now
    rw [Phase.run]
    by_cases h8 : c = 8
    · rw [if_pos h8]
      exact ⟨_, Or.inl rfl, hcur, fun _ _ => rfl⟩
    · rw [if_neg h8]
      refine ⟨_, Or.inl rfl, ?_, fun u hu => ?_⟩
      · rw [Display.advance, Display.setCursor_cursor]
        exact Display.nextCursor_inRange c _ hcur
      · exact congrArg Terminal.cursor ((Display.setCursor_on t d _).terms u hu)
  | home =>
    refine ⟨_, Or.inl rfl, ?_, fun u hu => ?_⟩
    · rw [Display.home, Display.setCursor_cursor]
      exact ⟨Nat.lt_succ_self 23, Nat.zero_lt_succ _⟩
    · rw [(Display.home_on panRows t d).terms u hu]
  | _ => exact ⟨_, Or.inl rfl, hcur, fun _ _ => rfl⟩

/-- The cursors are on their screens, and the page tables map the screens. -/
structure Output.Sound (m : Output) : Prop where
  onScreen : ∀ t, (m.display.terms t).cursor.InRange
  tables : Display.VideoTables m.display.paging

namespace Output.Sound

variable {m m' : Output} {e : OutEvent}

/-- **One step of the writers**, with an interrupt wherever one can come. -/
lemma step (h : m.Sound) (hok : NoUnderflow e m) (hs : m.step e = some m') : m'.Sound := by
  have hsame : ∀ m₁ : Output, m₁.display.terms = m.display.terms →
      Display.VideoTables m₁.display.paging → m₁.Sound := by
    intro m₁ hterms htables
    exact ⟨fun t => hterms ▸ h.onScreen t, htables⟩
  obtain ⟨-, heff⟩ := Output.step_effect hs
  cases heff with
  | tick hen =>
    have hadv := Display.pitAdvance_advanced m.display
    have htables : Display.VideoTables m.display.pitAdvance.paging := by
      rw [hadv.paging]
      exact h.tables.setAddr _ _
    rw [Output.tick]
    split
    · exact hsame _ hadv.terms htables
    · exact hsame _ hadv.terms htables
  | @echo c hen =>
    have hready : m.display.Ready := ⟨h.tables, h.onScreen _⟩
    obtain ⟨d, heq, hecho⟩ := hready.echo (c := c) fun h8 => by
      subst h8
      exact hok _ rfl
    rw [heq]
    refine ⟨fun t => ?_, hecho.tables⟩
    change (d.terms t).cursor.InRange
    rw [hecho.cursor]
    split
    · rename_i ht
      subst ht
      refine Cursor.step_inRange (h.onScreen _) fun h8 => ?_
      subst h8
      exact hok _ rfl
    · exact h.onScreen t
  | @switch t hen ht =>
    rw [Output.switchTo]
    split
    · exact h
    · exact hsame _ rfl h.tables
  | number hb => exact hsame _ rfl h.tables
  | start hcur => exact hsame _ rfl h.tables
  | write hcur =>
    exact hsame _ (Display.writePatch_terms _) h.tables.writePatch
  | @store i b hcur hi =>
    rw [Display.userPoke]
    split
    · exact hsame _ rfl h.tables
    · exact hsame _ rfl h.tables
  | @run enabled phase rest hcur =>
    have hdrawn := phase.run_drawn m.display.scheduledTerm m.display enabled rest
    obtain ⟨d', hend, hself, hothers⟩ := phase.run_cursor enabled rest
      (h.onScreen m.display.scheduledTerm) fun hnext hhead => by
        subst hnext
        cases rest with
        | nil => exact absurd hhead (by simp)
        | cons c cs =>
          obtain rfl := Option.some.inj hhead
          have hmem : m.display.scheduledTerm ∈ OutEvent.run.back? m := by
            simp only [OutEvent.back?, hcur, Option.mem_some_iff]
          exact hok _ hmem
    have hcursors : ∀ t, (d'.terms t).cursor.InRange := by
      intro t
      by_cases ht : t = m.display.scheduledTerm
      · rw [ht]
        exact hself
      · rw [hothers t ht]
        exact h.onScreen t
    rw [Output.runWriter]
    cases hrun : phase.run m.display.scheduledTerm m.display enabled rest with
    | error d =>
      rw [hrun] at hdrawn hend
      have hd : d = d' := by
        rcases hend with hend | hend
        · exact absurd hend (by simp [Except.map])
        · exact Except.error.inj hend
      subst hd
      exact ⟨hcursors, hdrawn.paging ▸ h.tables⟩
    | ok x =>
      rw [hrun] at hdrawn hend
      have hd : x.1 = d' := by
        rcases hend with hend | hend
        · exact Except.ok.inj hend
        · exact absurd hend (by simp [Except.map])
      subst hd
      exact ⟨hcursors, hdrawn.1.paging ▸ h.tables⟩

end Output.Sound

/-- Also where ticks, echoes and switches come between any two steps of the writers, the cursors
are on their screens in every run from boot in which no backspace comes at a first position. -/
theorem cursors_on_screen_preempted (l : Layout) (pg : Paging) (vram : ℕ → ℕ → UInt8)
    (mem : ℤ → Pcb) (m : Output)
    (h : Runs.Reach Output.step NoUnderflow (Output.boot l pg vram mem) m) (t : ℕ) :
    (m.display.terms t).cursor.InRange := by
  have hboot : (Output.boot l pg vram mem).Sound := by
    constructor
    · intro t
      exact ⟨Nat.zero_lt_succ 23, Nat.zero_lt_succ 79⟩
    · exact Display.tables_boot l pg vram mem
  have hsound := h.invariant (P := Output.Sound) hboot fun e m₁ m₂ hm hok hs => hm.step hok hs
  exact hsound.onScreen t

end WnajOS
