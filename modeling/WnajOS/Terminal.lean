import WnajOS.Lib
import WnajOS.Paging

/-!
# Terminals and the display (`term.c`, and the console part of `lib.c`)

Three terminals share one screen.  The screen of the visible terminal is the physical page
`0xB8`, that of a hidden terminal `t` the page `0xB9 + t`.  The kernel reaches video memory
through four virtual pages: `0xB7` always maps to the physical page `0xB8`, the pages `0xB9`
to `0xBB` map to themselves, and `0xB8` is remapped to the screen of the scheduled terminal.
A store to a page that is not present is a page fault: an
error below, which carries the display as it is at that store.
-/

namespace WnajOS

/-- `NUM_TTYS`. -/
def numTtys : ℕ := 3

/-- `TERM_COLS` and `NUM_COLS`. -/
def termCols : ℕ := 80

/-- `TERM_ROWS` and `NUM_ROWS`. -/
def termRows : ℕ := 24

/-- `PAN_ROWS`. -/
def panRows : ℕ := 1

/-- `ATTRIB`. -/
def attrib : UInt8 := 0xA

/-- `UNPRINTABLE`. -/
def unprintable : UInt8 := 0x06

/-- `VIDMEM` and `VIDEO`. -/
def vidmem : ℕ := 0xB8000

/-- `PHYS_VIDMEM` as an address. -/
def physVidmemAddr : ℕ := 0xB7000

/-- `input`: the line being typed. -/
structure Input where
  buffer : ℕ → UInt8
  idx : UInt8
  eol : Bool

/-- `cursor`.  The two bytes are natural numbers below 256. -/
@[ext] structure Cursor where
  row : ℕ
  col : ℕ
deriving DecidableEq

/-- `terminal`, without the constant field `mem`. -/
structure Terminal where
  input : Input
  cursor : Cursor
  pid : ℤ

/-- The terminals, the console position `screen_x`, `screen_y` of `lib.c`, the paging
structures, the bytes of the physical video pages, the position last sent to the cursor
registers of the display controller, and the bits that the keyboard has set in the `pending_sig` of
every process, by its pid. -/
structure Display where
  terms : ℕ → Terminal
  scheduledTerm : ℕ
  visibleTerm : ℕ
  screenX : ℕ
  screenY : ℕ
  paging : Paging
  vram : ℕ → ℕ → UInt8
  crtc : ℕ
  pendingSig : ℤ → UInt8

/-- The page of `terms[t].mem`. -/
def termMem (t : ℕ) : ℕ := 0xB9 + t

namespace Display

/-! ### Stores through the kernel's page table -/

/-- The store of a byte at a virtual address of the first 4 MB. -/
def poke (d : Display) (va : ℕ) (b : UInt8) : Except Display Display :=
  let pte := d.paging.pageTable0 (va / 4096)
  if pte.present then
    let page := Function.update (d.vram pte.addr) (va % 4096) b
    .ok { d with vram := Function.update d.vram pte.addr page }
  else .error d

/-- The physical page behind a virtual page that is never unmapped. -/
def frame (d : Display) (page : ℕ) : ℕ := (d.paging.pageTable0 page).addr

/-- `_screen_seek`. -/
def screenSeek (d : Display) (p : Cursor) : Display :=
  { d with screenX := p.col, screenY := p.row }

/-- The body of `putc` and `screen_putc`, which differ in the address of video memory only. -/
def putcAt (video : ℕ) (c color : UInt8) (d : Display) : Except Display Display :=
  if c = 10 ∨ c = 13 then .ok { d with screenX := 0, screenY := d.screenY + 1 }
  else if c = 8 then .ok d
  else if c = 9 then .ok d
  else do
    let cell := video + (termCols * d.screenY + d.screenX) * 2
    let d ← d.poke cell c
    let d ← d.poke (cell + 1) color
    let x := (d.screenX + 1) % termCols
    return { d with screenX := x, screenY := (d.screenY + x / termCols) % termRows }

/-- `putc`, without its `cli` and `sti`. -/
def putc (c color : UInt8) (d : Display) : Except Display Display := putcAt vidmem c color d

/-- `screen_putc`. -/
def screenPutc (c color : UInt8) (d : Display) : Except Display Display :=
  putcAt physVidmemAddr c color d

/-! ### Cursors and scrolling -/

/-- An update of the cursor of one terminal. -/
def setCursor (d : Display) (t : ℕ) (c : Cursor) : Display :=
  { d with terms := Function.update d.terms t { d.terms t with cursor := c } }

/-- `whiteout`: blanks in the default colour. -/
def whiteout (i : ℕ) : UInt8 := if i % 2 = 0 then 0x20 else 0x0A

/-- What the copies of `pan` do to a page: the rows move up by `rows` and the last `rows` of
the 24 are blanked. -/
def panPage (rows : ℕ) (page : ℕ → UInt8) : ℕ → UInt8 := fun i =>
  if i < (termRows - rows) * termCols * 2 then page (i + rows * termCols * 2)
  else if i < termRows * termCols * 2 then whiteout i
  else page i

/-- `pan`: the visible terminal is scrolled through `0xB7000`, a hidden one through its
own page. -/
def pan (rows t : ℕ) (d : Display) : Display :=
  let mem := d.frame (if t = d.visibleTerm then physVidmem else termMem t)
  let d := { d with vram := Function.update d.vram mem (panPage rows (d.vram mem)) }
  let d := d.screenSeek ⟨termRows - rows, 0⟩
  d.setCursor t ⟨termRows - rows, 0⟩

/-- `cursor_increment`.  (No caller uses its result.) -/
def cursorIncrement (t : ℕ) (d : Display) : Display :=
  let c := (d.terms t).cursor
  let col := (c.col + 1) % termCols
  if col = 0 then
    let row := (c.row + 1) % termRows
    let d := d.setCursor t ⟨row, col⟩
    if row = 0 then pan panRows t d else d
  else d.setCursor t ⟨c.row, col⟩

/-- `cursor_decrement`.  The row is a byte: above row 0 it wraps to 255. -/
def cursorDecrement (t : ℕ) (d : Display) : Display :=
  let c := (d.terms t).cursor
  if c.col = 0 then d.setCursor t ⟨(c.row + 255) % 256, termCols - 1⟩
  else d.setCursor t ⟨c.row, c.col - 1⟩

/-- `cursor_increment_line`. -/
def cursorIncrementLine (t : ℕ) (d : Display) : Display :=
  let row := ((d.terms t).cursor.row + 1) % 256 % termRows
  let d := d.setCursor t ⟨row, 0⟩
  if row = 0 then pan panRows t d else d

/-- `update_cursor`. -/
def updateCursor (t : ℕ) (d : Display) : Display :=
  let c := (d.terms t).cursor
  { d with crtc := (c.row * termCols + c.col) % 65536 }

/-! ### `terminal_write` -/

/-- The patch at the start of `terminal_write`. -/
def writePatch (d : Display) : Display :=
  if d.scheduledTerm ≠ d.visibleTerm ∧ d.frame videoMemAddr = 0xB8 then
    { d with paging := { d.paging with
        pageTable0 := setPteAddr videoMemAddr (0xB9 + d.scheduledTerm) d.paging.pageTable0 } }
  else d

/-- `putc` or `screen_putc`, as `terminal_write` chooses. -/
def put (visible : Bool) (c : UInt8) (d : Display) : Except Display Display :=
  if visible then screenPutc c attrib d else putc c attrib d

/-- The byte that `terminal_write` hands to `putc` for a byte of its buffer. -/
def glyph (c : UInt8) : UInt8 :=
  if c = 8 then 0x20 else if c = 10 ∨ c = 13 then 10 else if c = 9 then unprintable else c

/-- The step of the cursor before a byte is drawn. -/
def cursorBefore (c : UInt8) (t : ℕ) (d : Display) : Display :=
  if c = 8 then cursorDecrement t d else d

/-- The step of the cursor after a byte was drawn at `p`; after a backspace the console is
moved back to `p` instead. -/
def cursorAfter (c : UInt8) (p : Cursor) (t : ℕ) (d : Display) : Display :=
  if c = 8 then d.screenSeek p
  else if c = 10 ∨ c = 13 then cursorIncrementLine t d
  else cursorIncrement t d

/-- One byte of the loop of `terminal_write`, to the terminal `t`. -/
def writeChar (visible : Bool) (t : ℕ) (c : UInt8) (d : Display) : Except Display Display :=
  if c = 0 then .ok d
  else do
    let d := cursorBefore c t d
    let p := (d.terms t).cursor
    let d ← put visible (glyph c) (d.screenSeek p)
    return cursorAfter c p t d

/-- The loop of `terminal_write`. -/
def writeLoop (visible : Bool) (t : ℕ) : List UInt8 → Display → Except Display Display
  | [], d => .ok d
  | c :: cs, d => do writeLoop visible t cs (← writeChar visible t c d)

/-- `terminal_write`, run without interruption.  The descriptor 100 is that of the interrupt
handlers, which write to the visible terminal. -/
def terminalWrite (fd : Int32) (buf : Option Buf) (nbytes : Int32) (d : Display) :
    Except Display (Int32 × Display) :=
  let d := writePatch d
  let visible := fd = 100
  let t := if visible then d.visibleTerm else d.scheduledTerm
  match buf with
  | none => .ok (-1, d)
  | some chrs => do
    let d ← writeLoop visible t ((List.range nbytes.toInt.toNat).map chrs) d
    let d := if visible ∨ d.scheduledTerm = d.visibleTerm then updateCursor t d else d
    return (nbytes, d)

/-- `PRINTLN`. -/
def println (msg : Str) (d : Display) : Except Display Display :=
  (terminalWrite 100 (some msg.byteAt) (Int32.ofNat (strlen msg)) d).map Prod.snd

/-! ### The console of the kernel -/

/-- `clear`: the 24 rows at the virtual page `0xB8`, which is always present. -/
def clear (d : Display) : Display :=
  let mem := d.frame videoMemAddr
  let page := fun i =>
    if i < termRows * termCols * 2 then (if i % 2 = 0 then 0x20 else attrib) else d.vram mem i
  { d with vram := Function.update d.vram mem page, screenX := 0, screenY := 0 }

/-- `putc` for each byte of a text. -/
def puts : List UInt8 → Display → Except Display Display
  | [], d => .ok d
  | c :: cs, d => do puts cs (← putc c attrib d)

/-! ### Switching terminals -/

/-- `clear_phys_screen`, as it is after its first call: 24 rows. -/
def clearPhysScreen (d : Display) : Display :=
  let mem := d.frame physVidmem
  let page := fun i =>
    if i < termRows * termCols * 2 then (if i % 2 = 0 then 0x20 else attrib) else d.vram mem i
  { d with vram := Function.update d.vram mem page, screenX := 0, screenY := 0 }

/-- `memcpy` of the 24 rows of a virtual page to another one. -/
def copyScreen (dest src : ℕ) (d : Display) : Display :=
  let page := memcpy (d.vram (d.frame dest)) (d.vram (d.frame src)) (termRows * termCols * 2)
  { d with vram := Function.update d.vram (d.frame dest) page }

/-- The store of the terminal's number in the status row. -/
def drawStatus (d : Display) : Display :=
  let mem := d.frame physVidmem
  let page := Function.update (d.vram mem) ((24 * 80 + 9) * 2) (0x30 + UInt8.ofNat d.visibleTerm)
  { d with vram := Function.update d.vram mem page }

/-- `term_switch` to another terminal up to the `sti` of `update_cursor`: an interrupt can come
before the terminal's number is stored. -/
def showTerm (newTerm : ℕ) (d : Display) : Display :=
  let d := copyScreen (termMem d.visibleTerm) physVidmem d
  let d := clearPhysScreen d
  let d := copyScreen physVidmem (termMem newTerm) d
  let d := { d with visibleTerm := newTerm }
  updateCursor newTerm d

/-- `term_switch`, run without interruption. -/
def termSwitch (newTerm : ℕ) (d : Display) : Display :=
  if newTerm = d.visibleTerm then d else drawStatus (showTerm newTerm d)

/-! ### What the patch leaves alone -/

@[simp] lemma writePatch_terms (d : Display) : d.writePatch.terms = d.terms := by
  rw [writePatch]
  split
  · rfl
  · rfl

@[simp] lemma writePatch_scheduledTerm (d : Display) :
    d.writePatch.scheduledTerm = d.scheduledTerm := by
  rw [writePatch]
  split
  · rfl
  · rfl

@[simp] lemma writePatch_visibleTerm (d : Display) : d.writePatch.visibleTerm = d.visibleTerm := by
  rw [writePatch]
  split
  · rfl
  · rfl

@[simp] lemma writePatch_vram (d : Display) : d.writePatch.vram = d.vram := by
  rw [writePatch]
  split
  · rfl
  · rfl

@[simp] lemma writePatch_crtc (d : Display) : d.writePatch.crtc = d.crtc := by
  rw [writePatch]
  split
  · rfl
  · rfl

/-! ### What drawing leaves alone -/

/-- `d'` differs from `d` in what is drawn only: the bytes of video memory, the cursors and
the console position. -/
structure Drawn (d d' : Display) : Prop where
  scheduledTerm : d'.scheduledTerm = d.scheduledTerm
  visibleTerm : d'.visibleTerm = d.visibleTerm
  paging : d'.paging = d.paging
  input : ∀ t, (d'.terms t).input = (d.terms t).input
  pid : ∀ t, (d'.terms t).pid = (d.terms t).pid

namespace Drawn

variable {d d' d'' : Display}

lemma refl (d : Display) : Drawn d d := ⟨rfl, rfl, rfl, fun _ => rfl, fun _ => rfl⟩

lemma trans (h : Drawn d d') (h' : Drawn d' d'') : Drawn d d'' :=
  ⟨h'.scheduledTerm.trans h.scheduledTerm, h'.visibleTerm.trans h.visibleTerm,
    h'.paging.trans h.paging, fun t => (h'.input t).trans (h.input t),
    fun t => (h'.pid t).trans (h.pid t)⟩

end Drawn

/-- A fallible drawing operation ends, or faults, in a display that differs in what is
drawn. -/
def Draws (d : Display) : Except Display Display → Prop
  | .ok d' => Drawn d d'
  | .error d' => Drawn d d'

/-- Whether it returns or faults, an operation leaves a display on which it has only drawn. -/
lemma Draws.drawn {d d' : Display} {r : Except Display Display} (h : Draws d r)
    (hr : r = .ok d' ∨ r = .error d') : Drawn d d' := by
  rcases hr with rfl | rfl
  · exact h
  · exact h

lemma Drawn.draws {d d' : Display} {r : Except Display Display} (h : Drawn d d')
    (hr : Draws d' r) : Draws d r := by
  cases r with
  | error d'' => exact h.trans hr
  | ok d'' => exact h.trans hr

lemma Draws.bind {d : Display} {r : Except Display Display}
    {f : Display → Except Display Display} (h : Draws d r) (hf : ∀ d', Draws d' (f d')) :
    Draws d (r >>= f) := by
  cases r with
  | error d' => exact h
  | ok d' => exact Drawn.draws h (hf d')

lemma poke_draws (d : Display) (va : ℕ) (b : UInt8) : Draws d (d.poke va b) := by
  rw [poke]
  dsimp only
  split
  · exact ⟨rfl, rfl, rfl, fun _ => rfl, fun _ => rfl⟩
  · exact Drawn.refl d

lemma setCursor_drawn (d : Display) (t : ℕ) (c : Cursor) : Drawn d (d.setCursor t c) := by
  refine ⟨rfl, rfl, rfl, fun t' => ?_, fun t' => ?_⟩ <;>
  · by_cases h : t' = t
    · subst h
      simp only [setCursor, Function.update_self]
    · simp only [setCursor, Function.update_of_ne h]

lemma screenSeek_drawn (d : Display) (p : Cursor) : Drawn d (d.screenSeek p) :=
  ⟨rfl, rfl, rfl, fun _ => rfl, fun _ => rfl⟩

lemma pan_drawn (rows t : ℕ) (d : Display) : Drawn d (pan rows t d) := by
  refine Drawn.trans ?_ (setCursor_drawn _ t _)
  exact ⟨rfl, rfl, rfl, fun _ => rfl, fun _ => rfl⟩

lemma cursorIncrement_drawn (t : ℕ) (d : Display) : Drawn d (cursorIncrement t d) := by
  rw [cursorIncrement]
  dsimp only
  split
  · split
    · exact (setCursor_drawn d t _).trans (pan_drawn _ _ _)
    · exact setCursor_drawn d t _
  · exact setCursor_drawn d t _

lemma cursorDecrement_drawn (t : ℕ) (d : Display) : Drawn d (cursorDecrement t d) := by
  rw [cursorDecrement]
  split
  · exact setCursor_drawn d t _
  · exact setCursor_drawn d t _

lemma cursorIncrementLine_drawn (t : ℕ) (d : Display) : Drawn d (cursorIncrementLine t d) := by
  rw [cursorIncrementLine]
  split
  · exact (setCursor_drawn d t _).trans (pan_drawn _ _ _)
  · exact setCursor_drawn d t _

lemma cursorBefore_drawn (c : UInt8) (t : ℕ) (d : Display) : Drawn d (cursorBefore c t d) := by
  rw [cursorBefore]
  split
  · exact cursorDecrement_drawn t d
  · exact Drawn.refl d

lemma cursorAfter_drawn (c : UInt8) (p : Cursor) (t : ℕ) (d : Display) :
    Drawn d (cursorAfter c p t d) := by
  rw [cursorAfter]
  split
  · exact screenSeek_drawn d p
  · split
    · exact cursorIncrementLine_drawn t d
    · exact cursorIncrement_drawn t d

lemma putcAt_draws (video : ℕ) (c color : UInt8) (d : Display) :
    Draws d (putcAt video c color d) := by
  rw [putcAt]
  split
  · exact ⟨rfl, rfl, rfl, fun _ => rfl, fun _ => rfl⟩
  · split
    · exact Drawn.refl d
    · split
      · exact Drawn.refl d
      · refine (poke_draws d _ c).bind fun d₁ => ?_
        refine (poke_draws d₁ _ color).bind fun d₂ => ?_
        exact ⟨rfl, rfl, rfl, fun _ => rfl, fun _ => rfl⟩

lemma put_draws (visible : Bool) (c : UInt8) (d : Display) : Draws d (put visible c d) := by
  rw [put]
  split
  · exact putcAt_draws _ _ _ d
  · exact putcAt_draws _ _ _ d

lemma writeChar_draws (visible : Bool) (t : ℕ) (c : UInt8) (d : Display) :
    Draws d (writeChar visible t c d) := by
  rw [writeChar]
  split
  · exact Drawn.refl d
  · have hseek := (cursorBefore_drawn c t d).trans
      (screenSeek_drawn (cursorBefore c t d) ((cursorBefore c t d).terms t).cursor)
    exact hseek.draws ((put_draws _ _ _).bind fun d₁ => cursorAfter_drawn _ _ _ d₁)

lemma writeLoop_draws (visible : Bool) (t : ℕ) (cs : List UInt8) (d : Display) :
    Draws d (writeLoop visible t cs d) := by
  induction cs generalizing d with
  | nil => exact Drawn.refl d
  | cons c cs ih => exact (writeChar_draws visible t c d).bind ih

lemma puts_draws (cs : List UInt8) (d : Display) : Draws d (d.puts cs) := by
  induction cs generalizing d with
  | nil => exact Drawn.refl d
  | cons c cs ih => exact (putcAt_draws _ _ _ d).bind ih

lemma clear_drawn (d : Display) : Drawn d d.clear :=
  ⟨rfl, rfl, rfl, fun _ => rfl, fun _ => rfl⟩

lemma updateCursor_drawn (t : ℕ) (d : Display) : Drawn d (updateCursor t d) :=
  ⟨rfl, rfl, rfl, fun _ => rfl, fun _ => rfl⟩

/-- The terminal that `terminal_write` writes to. -/
def writeTarget (fd : Int32) (d : Display) : ℕ :=
  if fd = 100 then d.writePatch.visibleTerm else d.writePatch.scheduledTerm

/-- `terminal_write` is the patch, the loop and the cursor of the display. -/
lemma terminalWrite_run (fd : Int32) (buf : Buf) (nbytes : Int32) (d : Display) :
    terminalWrite fd (some buf) nbytes d =
      (writeLoop (fd = 100) (writeTarget fd d) ((List.range nbytes.toInt.toNat).map buf)
        (writePatch d)).map fun d' => (nbytes, if fd = 100 ∨ d'.scheduledTerm = d'.visibleTerm
          then updateCursor (writeTarget fd d) d' else d') := by
  rw [terminalWrite, writeTarget]
  simp only
  cases writeLoop (fd = 100) _ ((List.range nbytes.toInt.toNat).map buf) (writePatch d)
  · rfl
  · rfl

/-- `terminal_write` draws on the patched display. -/
lemma terminalWrite_drawn (fd : Int32) (buf : Option Buf) (nbytes : Int32) (d : Display) :
    (∀ d', terminalWrite fd buf nbytes d = .error d' → Drawn (writePatch d) d') ∧
      ∀ r d', terminalWrite fd buf nbytes d = .ok (r, d') → Drawn (writePatch d) d' := by
  cases buf with
  | none =>
    refine ⟨fun d' h => absurd h (by simp [terminalWrite]), fun r d' h => ?_⟩
    injection h with h
    obtain ⟨-, rfl⟩ := h
    exact Drawn.refl _
  | some chrs =>
    have hloop := writeLoop_draws (fd = 100) (writeTarget fd d)
      ((List.range nbytes.toInt.toNat).map chrs) (writePatch d)
    rw [terminalWrite_run]
    cases hr : writeLoop (fd = 100) (writeTarget fd d) ((List.range nbytes.toInt.toNat).map chrs)
      (writePatch d) with
    | error d₁ =>
      rw [hr] at hloop
      refine ⟨fun d' h => ?_, fun r d' h => absurd h (by simp [Except.map])⟩
      injection h with h
      exact h ▸ hloop
    | ok d₁ =>
      rw [hr] at hloop
      refine ⟨fun d' h => absurd h (by simp [Except.map]), fun r d' h => ?_⟩
      injection h with h
      obtain ⟨-, rfl⟩ := Prod.mk.inj h
      split
      · exact Drawn.trans hloop (updateCursor_drawn _ d₁)
      · exact hloop

/-! ### The part of `pit_handler` that is about the display -/

/-- The remapping of the virtual page `0xB8`, for the kernel and for user programs. -/
def mapVideo (page : ℕ) (d : Display) : Display :=
  { d with paging := { d.paging with
      pageTable0 := setPteAddr videoMemAddr page d.paging.pageTable0
      userVidmapTable := setPteAddr videoMemAddr page d.paging.userVidmapTable } }

/-- `pit_handler` from the choice of the next terminal to the flush: the next terminal is
scheduled and video memory follows it. -/
def pitAdvance (d : Display) : Display :=
  let d := { d with scheduledTerm := (d.scheduledTerm + 1) % numTtys }
  if d.scheduledTerm = d.visibleTerm then mapVideo videoMemAddr d
  else (mapVideo (videoMemAddr + (d.scheduledTerm + 1)) d).screenSeek
    (d.terms d.scheduledTerm).cursor

end Display

/-! ### `terminal_read` -/

/-- The variable `len` of `terminal_read`. -/
def readLen (inp : Input) (nbytes : Int32) : ℕ :=
  if (inp.idx.toNat : ℤ) < nbytes.toInt then inp.idx.toNat else nbytes.toInt.toNat

/-- What `terminal_read` does once its loop has ended, with the line as it is then: the value
returned, the buffer and the emptied line. -/
def terminalRead (inp : Input) (buf : Buf) (nbytes : Int32) : Int32 × Buf × Input :=
  let len := readLen inp nbytes
  (Int32.ofNat len, memcpy buf inp.buffer len, { inp with eol := false, idx := 0 })

end WnajOS
