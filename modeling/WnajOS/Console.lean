import WnajOS.Screens

/-!
# The kernel's console (`clear`, `putc` and `puts` of `lib.c`)

`puts` and `printf` hand every byte of their output to `putc`, which stores it at the console's
position and moves on.  After column 79 `putc` takes the column modulo 80 before it divides it
by 80 for the row, so the row never follows; and only a stored character takes the row modulo
24, after its store.  The console therefore stays on the screen, and continues a full row on the
next one, for the texts that never need either.
-/

namespace WnajOS

/-- The bytes that `putc` stores nothing for. -/
def isControl (c : UInt8) : Bool := c = 10 ∨ c = 13 ∨ c = 8 ∨ c = 9

/-- The bytes that end a line. -/
def endsLine (c : UInt8) : Bool := c = 10 ∨ c = 13

/-- The row below, as `putc` counts rows. -/
def Cursor.nextRow (p : Cursor) : Cursor := ⟨(p.row + 1) % termRows, 0⟩

namespace Display

/-- The cell in which `putc` stores a byte. -/
def cell? (c : UInt8) (d : Display) : Option Cursor :=
  if isControl c then none else some ⟨d.screenY, d.screenX⟩

/-- Video memory after a byte was stored in a cell behind `VIDEO`, or in none. -/
def stored (c : UInt8) (d : Display) : Option Cursor → ℕ → ℕ → UInt8
  | none => d.vram
  | some p => d.storeAt (vidmem + (termCols * p.row + p.col) * 2) c attrib

/-- The last cell of the current line that has been stored in, after a byte. -/
def lastCell (c : UInt8) (prev : Option Cursor) (d : Display) : Option Cursor :=
  if endsLine c then none else (d.cell? c).or prev

/-- Every store of a text goes to a cell of the 24 rows, and after the last column a line
continues on the row below; nothing else in video memory changes.  `prev` is the last cell of the
current line. -/
def Printed (prev : Option Cursor) : List UInt8 → Display → Prop
  | [], _ => True
  | c :: cs, d =>
    (∀ p ∈ d.cell? c, p.InRange ∧ ∀ q ∈ prev, q.col + 1 = termCols → p = q.nextRow) ∧
    ∀ d', d.putc c attrib = .ok d' →
      d'.vram = d.stored c (d.cell? c) ∧ Printed (d.lastCell c prev) cs d'

end Display

/-- From the row `row`, with `n` characters in the current line: no character comes behind the
row 23, and no line has more than 80 characters. -/
def FitsScreen : (row n : ℕ) → List UInt8 → Prop
  | _, _, [] => True
  | row, n, c :: cs =>
    if endsLine c then FitsScreen (row + 1) 0 cs
    else if isControl c then FitsScreen row n cs
    else row < termRows ∧ n < termCols ∧ FitsScreen row (n + 1) cs

instance decidableFitsScreen : ∀ (row n : ℕ) (cs : List UInt8), Decidable (FitsScreen row n cs)
  | _, _, [] => .isTrue trivial
  | row, n, c :: cs =>
    have := decidableFitsScreen (row + 1) 0 cs
    have := decidableFitsScreen row n cs
    have := decidableFitsScreen row (n + 1) cs
    inferInstanceAs (Decidable (if endsLine c then FitsScreen (row + 1) 0 cs
      else if isControl c then FitsScreen row n cs
      else row < termRows ∧ n < termCols ∧ FitsScreen row (n + 1) cs))

namespace Display

section

variable {c : UInt8} {d : Display}

lemma glyph_of_drawn (h : isControl c = false) : glyph c = c := by
  have hnot : ¬(c = 10 ∨ c = 13 ∨ c = 8 ∨ c = 9) := of_decide_eq_false h
  rw [glyph, if_neg (by tauto), if_neg (by tauto), if_neg (by tauto)]

/-- The end of a line. -/
lemma putc_line (h : endsLine c = true) :
    d.putc c attrib = .ok { d with screenX := 0, screenY := d.screenY + 1 } :=
  if_pos (of_decide_eq_true h)

/-- A control byte within a line. -/
lemma putc_control (hline : endsLine c = false) (h : isControl c = true) :
    d.putc c attrib = .ok d := by
  have hline : ¬(c = 10 ∨ c = 13) := of_decide_eq_false hline
  have h : c = 10 ∨ c = 13 ∨ c = 8 ∨ c = 9 := of_decide_eq_true h
  rw [putc, putcAt, if_neg hline]
  split
  · rfl
  · rw [if_pos (by tauto)]

/-- A character is stored at the console's position, whose row does not change. -/
lemma putc_drawn (hpresent : (d.paging.pageTable0 videoMemAddr).present)
    (h : isControl c = false) (hx : d.screenX < 80) (hy : d.screenY < 24) :
    d.putc c attrib = .ok { d with
      vram := writeCell (d.frame videoMemAddr) ⟨d.screenY, d.screenX⟩ c d.vram
      screenX := (d.screenX + 1) % termCols } := by
  have hput := putcAt_eq (n := videoMemAddr) hpresent rfl hx (by omega) c
  have hnot : ¬(c = 10 ∨ c = 13 ∨ c = 8 ∨ c = 9) := of_decide_eq_false h
  rw [glyph_of_drawn h, drawGlyph, if_neg (by tauto)] at hput
  have hcol : (d.screenX + 1) % termCols / termCols = 0 :=
    Nat.div_eq_of_lt (Nat.mod_lt _ (by decide))
  have hrow : (d.screenY + 0) % termRows = d.screenY := Nat.mod_eq_of_lt hy
  simp only [hcol, hrow] at hput
  exact hput

/-- **What `putc` stores**, wherever the console is. -/
lemma putc_stored {d' : Display} (h : d.putc c attrib = .ok d') :
    d'.vram = d.stored c (d.cell? c) := by
  by_cases hline : endsLine c
  · have hcell : d.cell? c = none := by
      have hend : c = 10 ∨ c = 13 := of_decide_eq_true hline
      exact if_pos (decide_eq_true (by tauto))
    rw [putc_line hline] at h
    rw [hcell, ← Except.ok.inj h]
    rfl
  by_cases hcontrol : isControl c
  · have hcell : d.cell? c = none := if_pos hcontrol
    rw [putc_control (by simpa using hline) hcontrol] at h
    rw [hcell, ← Except.ok.inj h]
    rfl
  · have hcell : d.cell? c = some ⟨d.screenY, d.screenX⟩ := if_neg hcontrol
    have hnot : ¬(c = 10 ∨ c = 13 ∨ c = 8 ∨ c = 9) := by simpa [isControl] using hcontrol
    rw [putc, putcAt_cell (by decide) (by tauto)] at h
    dsimp only at h
    split at h
    · rw [hcell, ← Except.ok.inj h]
      rfl
    · exact absurd h (by simp)

/-- So only the positions matter. -/
lemma printed_cons {prev : Option Cursor} {cs : List UInt8} : Printed prev (c :: cs) d ↔
    (∀ p ∈ d.cell? c, p.InRange ∧ ∀ q ∈ prev, q.col + 1 = termCols → p = q.nextRow) ∧
      ∀ d', d.putc c attrib = .ok d' → Printed (d.lastCell c prev) cs d' := by
  rw [Printed]
  refine and_congr_right fun _ => forall_congr' fun d' => forall_congr' fun h => ?_
  exact and_iff_right (putc_stored h)

end

/-- The console in the row `row` after `n` characters of the current line, the last of them in
`prev`. -/
structure AtColumn (row n : ℕ) (prev : Option Cursor) (d : Display) : Prop where
  present : (d.paging.pageTable0 videoMemAddr).present
  screenY : d.screenY = row
  screenX : d.screenX = n % termCols
  le : n ≤ termCols
  prev : prev = if n = 0 then none else some ⟨row, n - 1⟩

namespace AtColumn

variable {row n : ℕ} {prev : Option Cursor} {c : UInt8} {d : Display}

/-- The demands on a store, as they are where it is made. -/
lemma cell_iff (h : AtColumn row n prev d) (hc : isControl c = false) :
    (∀ p ∈ d.cell? c, p.InRange ∧ ∀ q ∈ prev, q.col + 1 = termCols → p = q.nextRow) ↔
      row < termRows ∧ n < termCols := by
  obtain ⟨-, hy, hx, hle, rfl⟩ := h
  have hcell : d.cell? c = some ⟨row, n % termCols⟩ := by
    rw [cell?, hc, hy, hx]
    rfl
  simp only [hcell, Option.mem_some_iff, forall_eq']
  constructor
  · rintro ⟨⟨hrow, -⟩, hnext⟩
    refine ⟨hrow, lt_of_le_of_ne hle ?_⟩
    -- after the last column the row would have to change
    rintro rfl
    have hp := hnext ⟨row, termCols - 1⟩ (if_neg (by decide)) rfl
    have hrow' : row = (row + 1) % termRows := (Cursor.mk.inj hp).1
    rw [termRows] at hrow'
    omega
  · rintro ⟨hrow, hn⟩
    refine ⟨⟨hrow, Nat.mod_lt _ (by decide)⟩, fun q hq hcol => ?_⟩
    by_cases h0 : n = 0
    · rw [if_pos h0] at hq
      exact absurd hq (by simp)
    · rw [if_neg h0] at hq
      obtain rfl := Option.some.inj hq
      have : n - 1 + 1 = termCols := hcol
      omega

/-- **The step lemma** for a character. -/
lemma drawn (h : AtColumn row n prev d) (hc : isControl c = false) (hrow : row < termRows)
    (hn : n < termCols) : ∃ d', d.putc c attrib = .ok d' ∧
      AtColumn row (n + 1) (d.lastCell c prev) d' := by
  obtain ⟨hpresent, hy, hx, -, -⟩ := h
  have hx' : d.screenX < 80 := by
    rw [hx]
    exact Nat.mod_lt _ (by decide)
  refine ⟨_, putc_drawn hpresent hc hx' (hy ▸ hrow), hpresent, hy, ?_, hn, ?_⟩
  · dsimp only
    rw [hx, Nat.mod_add_mod]
  · have hline : endsLine c = false := by
      have hnot : ¬(c = 10 ∨ c = 13 ∨ c = 8 ∨ c = 9) := of_decide_eq_false hc
      exact decide_eq_false (by tauto)
    rw [lastCell, hline, cell?, hc, hy, hx, Nat.mod_eq_of_lt hn]
    rfl

/-- **The step lemma** for the end of a line. -/
lemma line (h : AtColumn row n prev d) (hc : endsLine c = true) :
    AtColumn (row + 1) 0 (d.lastCell c prev) { d with screenX := 0, screenY := d.screenY + 1 } where
  present := h.present
  screenY := congrArg (· + 1) h.screenY
  screenX := rfl
  le := Nat.zero_le _
  prev := by
    rw [lastCell, hc]
    rfl

/-- **The run lemma.** -/
lemma printed_iff (h : AtColumn row n prev d) (cs : List UInt8) :
    Printed prev cs d ↔ FitsScreen row n cs := by
  induction cs generalizing row n prev d with
  | nil => exact Iff.rfl
  | cons c cs ih =>
    rw [printed_cons, FitsScreen]
    by_cases hline : endsLine c
    · have hcontrol : isControl c = true := by
        have hend : c = 10 ∨ c = 13 := of_decide_eq_true hline
        exact decide_eq_true (by tauto)
      have hcell : d.cell? c = none := if_pos hcontrol
      simp only [if_pos hline, hcell, putc_line hline, Except.ok.injEq, forall_eq',
        Option.not_mem_none, false_implies, implies_true, true_and]
      exact ih (h.line hline)
    rw [if_neg hline]
    by_cases hcontrol : isControl c
    · have hcell : d.cell? c = none := if_pos hcontrol
      have hlast : d.lastCell c prev = prev := by
        rw [lastCell, if_neg hline, hcell]
        rfl
      have hput := putc_control (d := d) (by simpa using hline) hcontrol
      simp only [if_pos hcontrol, hcell, hlast, hput, Except.ok.injEq, forall_eq',
        Option.not_mem_none, false_implies, implies_true, true_and]
      exact ih h
    rw [if_neg hcontrol, h.cell_iff (by simpa using hcontrol), and_assoc]
    refine and_congr_right fun hrow => and_congr_right fun hn => ?_
    obtain ⟨d', hput, hat⟩ := h.drawn (by simpa using hcontrol) hrow hn
    simp only [hput, Except.ok.injEq, forall_eq']
    exact ih hat

/-- `clear` leaves the console in the corner. -/
lemma clear (hpresent : (d.paging.pageTable0 videoMemAddr).present) : AtColumn 0 0 none d.clear :=
  ⟨hpresent, rfl, rfl, Nat.zero_le _, rfl⟩

end AtColumn

/-- **The console stays on the screen and wraps** exactly for the texts in which no character
comes behind more than 23 ends of lines and no line has more than 80 characters. -/
theorem console_on_screen (d : Display) (hpresent : (d.paging.pageTable0 videoMemAddr).present)
    (cs : List UInt8) : Printed none cs d.clear ↔ FitsScreen 0 0 cs :=
  (AtColumn.clear hpresent).printed_iff cs

/-- After the boot, a full row and a line below it. -/
theorem console_on_screen_boot :
    Printed none (List.replicate 80 0x61 ++ [10, 0x62]) sampleBoot.toDisplay.clear :=
  (console_on_screen sampleBoot.toDisplay (tables_boot ..).kernel _).2 (by decide +kernel)

/-- The character 81 of a line is stored over the first one. -/
theorem console_overwrites : ¬∀ (d : Display) (cs : List UInt8),
    (d.paging.pageTable0 videoMemAddr).present → Printed none cs d.clear := by
  intro h
  have hpresent : (sampleBoot.toDisplay.paging.pageTable0 videoMemAddr).present :=
    (tables_boot ..).kernel
  have hprinted := h sampleBoot.toDisplay (List.replicate 81 0x61) hpresent
  have hfits := ((AtColumn.clear hpresent).printed_iff _).1 hprinted
  exact absurd hfits (by decide +kernel)

end Display

end WnajOS
