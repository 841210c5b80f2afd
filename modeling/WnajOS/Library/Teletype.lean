import Mathlib.Tactic
import Mathlib.Data.Fin.Basic

/-!
# A teletype and its screen

A teletype prints symbols on a page whose rows go on forever.  The head leaves a row as soon as the
last column is filled.  A screen has room for `h` rows: where the teletype goes on to the next row,
the screen scrolls and clears the last one.

`window_run` says that the screen always shows the last `h` rows of the page.
-/

namespace Teletype

/-- What is printed: a symbol, or the end of a row. -/
inductive Op (α : Type*)
  | put (a : α)
  | newline

/-- A page, and the place where the next symbol is printed. -/
@[ext] structure Page (α : Type*) (w : ℕ) where
  cell : ℕ → Fin w → α
  row : ℕ
  col : Fin w

/-- A screen, and the place where the next symbol is printed. -/
@[ext] structure Screen (α : Type*) (h w : ℕ) where
  cell : Fin h → Fin w → α
  row : Fin h
  col : Fin w

variable {α : Type*} {h w : ℕ}

namespace Page

/-- The symbol `a` is printed. -/
def fill (a : α) (p : Page α w) : Page α w :=
  { p with cell := Function.update p.cell p.row (Function.update (p.cell p.row) p.col a) }

/-- The head moves to the start of the next row. -/
def down (p : Page α w) : Page α w := { p with row := p.row + 1, col := ⟨0, p.col.pos⟩ }

/-- The head moves to the next column, or to the next row. -/
def next (p : Page α w) : Page α w :=
  if hlt : p.col.val + 1 < w then { p with col := ⟨p.col.val + 1, hlt⟩ } else p.down

def step (p : Page α w) : Op α → Page α w
  | .put a => (p.fill a).next
  | .newline => p.down

def run (p : Page α w) (ops : List (Op α)) : Page α w := ops.foldl step p

end Page

namespace Screen

/-- The symbol `a` is printed. -/
def fill (a : α) (s : Screen α h w) : Screen α h w :=
  { s with cell := Function.update s.cell s.row (Function.update (s.cell s.row) s.col a) }

/-- The rows move up by one, and the last one is cleared. -/
def scroll (blank : α) (s : Screen α h w) : Screen α h w :=
  { s with cell := fun i j => if hlt : i.val + 1 < h then s.cell ⟨i.val + 1, hlt⟩ j else blank }

/-- The head moves to the start of the next row, if need be after the screen was scrolled. -/
def down (blank : α) (s : Screen α h w) : Screen α h w :=
  if hlt : s.row.val + 1 < h then { s with row := ⟨s.row.val + 1, hlt⟩, col := ⟨0, s.col.pos⟩ }
  else { s.scroll blank with col := ⟨0, s.col.pos⟩ }

/-- The head moves to the next column, or to the next row. -/
def next (blank : α) (s : Screen α h w) : Screen α h w :=
  if hlt : s.col.val + 1 < w then { s with col := ⟨s.col.val + 1, hlt⟩ } else s.down blank

def step (blank : α) (s : Screen α h w) : Op α → Screen α h w
  | .put a => (s.fill a).next blank
  | .newline => s.down blank

def run (blank : α) (s : Screen α h w) (ops : List (Op α)) : Screen α h w :=
  ops.foldl (step blank) s

/-- The head moves back to the cell before, if need be over the start of a row. -/
def back (s : Screen α h w) : Screen α h w :=
  if s.col.val = 0 then
    { s with
      row := ⟨s.row.val - 1, Nat.lt_of_le_of_lt (Nat.sub_le _ 1) s.row.isLt⟩
      col := ⟨w - 1, Nat.sub_lt s.col.pos Nat.one_pos⟩ }
  else { s with col := ⟨s.col.val - 1, Nat.lt_of_le_of_lt (Nat.sub_le _ 1) s.col.isLt⟩ }

/-- The last symbol is rubbed out. -/
def rub (blank : α) (s : Screen α h w) : Screen α h w := s.back.fill blank

/-- The symbol in the cell before the head. -/
def last (s : Screen α h w) : α := s.back.cell s.back.row s.back.col

/-- The page that the screen is the beginning of, with nothing below it. -/
def page (blank : α) (s : Screen α h w) : Page α w where
  cell i j := if hi : i < h then s.cell ⟨i, hi⟩ j else blank
  row := s.row
  col := s.col

lemma fill_self (a : α) (s : Screen α h w) : (s.fill a).cell s.row s.col = a := by
  change Function.update s.cell s.row (Function.update (s.cell s.row) s.col a) s.row s.col = a
  rw [Function.update_self, Function.update_self]

/-- The symbol at the head is the last one when the head has moved on, also where the screen was
scrolled. -/
lemma last_next (hh : 2 ≤ h) (blank : α) (s : Screen α h w) :
    (s.next blank).last = s.cell s.row s.col := by
  have hcol := s.col.isLt
  have hrow := s.row.isLt
  rw [next]
  split
  · rw [last, back, if_neg (Nat.succ_ne_zero s.col.val)]
    rfl
  · rename_i hlast
    have hend : (⟨w - 1, Nat.sub_lt s.col.pos Nat.one_pos⟩ : Fin w) = s.col :=
      Fin.ext (by dsimp only; omega)
    rw [down]
    split
    · rw [last, back, if_pos rfl]
      dsimp only
      rw [hend]
      rfl
    · -- the row of the symbol has moved up with it
      rename_i hbottom
      rw [last, back, if_pos rfl, scroll]
      dsimp only
      rw [hend, dif_pos (by omega)]
      refine congrFun (congrArg s.cell (Fin.ext ?_)) s.col
      change s.row.val - 1 + 1 = s.row.val
      omega

/-- **What is printed last** stands before the head. -/
lemma last_put (hh : 2 ≤ h) (blank a : α) (s : Screen α h w) :
    (s.step blank (.put a)).last = a := by
  rw [step, last_next hh]
  exact s.fill_self a

end Screen

namespace Page

/-- The rows of the page above the last `h`. -/
def top (h : ℕ) (p : Page α w) : ℕ := p.row + 1 - h

/-- Nothing is printed below the first `h` rows and the row of the head. -/
def Fresh (h : ℕ) (blank : α) (p : Page α w) : Prop :=
  ∀ i, h ≤ i → p.row < i → ∀ j, p.cell i j = blank

variable {p : Page α w} {blank : α}

lemma fresh_page (s : Screen α h w) : (s.page blank).Fresh h blank := by
  intro i hi _ j
  exact dif_neg (Nat.not_lt.2 hi)

lemma Fresh.fill (hp : p.Fresh h blank) (a : α) : (p.fill a).Fresh h blank := by
  intro i hi hrow j
  have hne : i ≠ p.row := Nat.ne_of_gt hrow
  rw [Page.fill]
  dsimp only
  rw [Function.update_of_ne hne]
  exact hp i hi hrow j

lemma Fresh.down (hp : p.Fresh h blank) : p.down.Fresh h blank := by
  intro i hi hrow j
  exact hp i hi (Nat.lt_of_succ_lt hrow) j

lemma Fresh.next (hp : p.Fresh h blank) : p.next.Fresh h blank := by
  rw [Page.next]
  split
  · exact hp
  · exact hp.down

lemma Fresh.step (hp : p.Fresh h blank) (o : Op α) : (p.step o).Fresh h blank := by
  cases o with
  | put a => exact (hp.fill a).next
  | newline => exact hp.down

lemma Fresh.run (hp : p.Fresh h blank) (ops : List (Op α)) : (p.run ops).Fresh h blank := by
  induction ops generalizing p with
  | nil => exact hp
  | cons o ops ih => exact ih (hp.step o)

/-! ### The window moves with the head -/

variable [NeZero h]

lemma row_sub_top_lt (h : ℕ) [NeZero h] (p : Page α w) : p.row - p.top h < h := by
  have hpos := Nat.pos_of_neZero h
  rw [top]
  omega

/-- The last `h` rows of the page. -/
def window (h : ℕ) [NeZero h] (p : Page α w) : Screen α h w where
  cell i j := p.cell (p.top h + i) j
  row := ⟨p.row - p.top h, p.row_sub_top_lt h⟩
  col := p.col

lemma window_fill (a : α) (p : Page α w) : (p.fill a).window h = (p.window h).fill a := by
  have hle : p.top h ≤ p.row := by
    have hpos := Nat.pos_of_neZero h
    rw [top]
    omega
  ext i j
  · let r : Fin h := ⟨p.row - p.top h, p.row_sub_top_lt h⟩
    change Function.update p.cell p.row (Function.update (p.cell p.row) p.col a) (p.top h + i) j =
      Function.update (fun (i : Fin h) j => p.cell (p.top h + i) j) r
        (Function.update (fun j => p.cell (p.top h + r) j) p.col a) i j
    by_cases hi : i = r
    · have hrow : p.top h + r.val = p.row := by
        dsimp only [r]
        omega
      rw [hi, hrow, Function.update_self, Function.update_self]
    · have hne : p.top h + i.val ≠ p.row := by
        intro heq
        refine hi (Fin.ext ?_)
        dsimp only [r]
        omega
      rw [Function.update_of_ne hne, Function.update_of_ne hi]
  · rfl
  · rfl

/-- **Where the page goes on, the screen scrolls.** -/
lemma window_down (hp : p.Fresh h blank) : p.down.window h = (p.window h).down blank := by
  have hpos := Nat.pos_of_neZero h
  rw [Screen.down]
  by_cases hlt : p.row + 1 < h
  · -- the page still fits on the screen
    have htop : p.top h = 0 := by
      rw [top]
      omega
    have htop' : p.down.top h = 0 := by
      rw [top, down]
      dsimp only
      omega
    have hrow : (p.window h).row.val + 1 < h := by
      change p.row - p.top h + 1 < h
      omega
    rw [dif_pos hrow]
    ext i j
    · change p.cell (p.down.top h + i) j = p.cell (p.top h + i) j
      rw [htop, htop']
    · change p.row + 1 - p.down.top h = p.row - p.top h + 1
      omega
    · rfl
  · have htop : p.top h = p.row + 1 - h := rfl
    have htop' : p.down.top h = p.top h + 1 := by
      rw [top, top, down]
      dsimp only
      omega
    have hrow : ¬(p.window h).row.val + 1 < h := by
      change ¬(p.row - p.top h + 1 < h)
      omega
    rw [dif_neg hrow]
    ext i j
    · change p.cell (p.down.top h + i) j =
        if hi : i.val + 1 < h then p.cell (p.top h + (i.val + 1)) j else blank
      rw [htop']
      split
      · congr 1
        omega
      · -- the row below the head
        have hi := i.isLt
        exact hp _ (by omega) (by omega) j
    · change p.row + 1 - p.down.top h = p.row - p.top h
      omega
    · rfl

lemma window_next (hp : p.Fresh h blank) : p.next.window h = (p.window h).next blank := by
  rw [Page.next, Screen.next]
  by_cases hlt : p.col.val + 1 < w
  · rw [dif_pos hlt, dif_pos (show (p.window h).col.val + 1 < w from hlt)]
    rfl
  · rw [dif_neg hlt, dif_neg (show ¬(p.window h).col.val + 1 < w from hlt)]
    exact window_down hp

lemma window_step (hp : p.Fresh h blank) (o : Op α) :
    (p.step o).window h = (p.window h).step blank o := by
  cases o with
  | put a =>
    rw [Page.step, Screen.step, ← window_fill]
    exact window_next (hp.fill a)
  | newline => exact window_down hp

/-- **The screen shows the last rows of the page.** -/
theorem window_run (hp : p.Fresh h blank) (ops : List (Op α)) :
    (p.run ops).window h = (p.window h).run blank ops := by
  induction ops generalizing p with
  | nil => rfl
  | cons o ops ih =>
    have hstep := window_step hp o
    change ((p.step o).run ops).window h = ((p.window h).step blank o).run blank ops
    rw [← hstep]
    exact ih (hp.step o)

end Page

variable [NeZero h] {blank : α}

/-- A screen shows the page it is the beginning of. -/
lemma Screen.window_page (s : Screen α h w) : (s.page blank).window h = s := by
  have hrow := s.row.isLt
  have htop : (s.page blank).top h = 0 := by
    change s.row.val + 1 - h = 0
    omega
  ext i j
  · change (if hi : (s.page blank).top h + i.val < h then
      s.cell ⟨(s.page blank).top h + i.val, hi⟩ j else blank) = s.cell i j
    have hi : (s.page blank).top h + i.val < h := by
      rw [htop, Nat.zero_add]
      exact i.isLt
    rw [dif_pos hi]
    congr 1
    refine Fin.ext ?_
    dsimp only
    omega
  · change s.row.val - (s.page blank).top h = s.row.val
    omega
  · rfl

/-- What is printed on a screen is what is printed on the page that it begins. -/
theorem Screen.run_eq (s : Screen α h w) (ops : List (Op α)) :
    s.run blank ops = ((s.page blank).run ops).window h := by
  rw [Page.window_run (Page.fresh_page s), s.window_page]

end Teletype
