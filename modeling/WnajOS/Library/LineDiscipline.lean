import Mathlib.Tactic

/-!
# Line disciplines

A terminal collects what is typed in a line that can still be edited, and hands the lines that
were entered to its readers, one line a read and the oldest first.  A reader may take a part of
a line only; the rest of that line is dropped.

`Lines` is this abstract terminal, over any type of elements.  `Holds` relates a line to the
memory that an implementation keeps it in.
-/

namespace LineDiscipline

variable {α : Type*}

/-- A key, as far as lines are concerned. -/
inductive Key (α : Type*)
  | insert (a : α)
  | tab
  | erase
  | enter
deriving DecidableEq

/-- How many elements can be typed in a line, the element that a tab inserts and how often, and
the element that ends a line. -/
structure Discipline (α : Type*) where
  capacity : ℕ
  tabWidth : ℕ
  blank : α
  newline : α

/-- The lines that were entered, the oldest first, and the one that is being edited. -/
@[ext] structure Lines (α : Type*) where
  entered : List (List α)
  current : List α

/-- A terminal on which nothing was typed. -/
def Lines.empty : Lines α := ⟨[], []⟩

/-- A reader takes the first `n` elements of the oldest line. -/
def Lines.read (n : ℕ) (s : Lines α) : Option (List α × Lines α) :=
  match s.entered with
  | [] => none
  | l :: ls => some (l.take n, ⟨ls, s.current⟩)

namespace Discipline

variable (D : Discipline α)

/-- A key that edits the line. -/
def edit (l : List α) : Key α → List α
  | .insert a => if l.length < D.capacity then l ++ [a] else l
  | .tab => l ++ List.replicate (min D.tabWidth (D.capacity - l.length)) D.blank
  | .erase => l.dropLast
  | .enter => l

/-- The line that a list of keys leaves. -/
def edited (keys : List (Key α)) : List α := keys.foldl D.edit []

/-- A key on a terminal. -/
def key (s : Lines α) : Key α → Lines α
  | .enter => ⟨s.entered ++ [s.current ++ [D.newline]], []⟩
  | .insert a => { s with current := D.edit s.current (.insert a) }
  | .tab => { s with current := D.edit s.current .tab }
  | .erase => { s with current := D.edit s.current .erase }

/-- A list that is ended by the only newline in it. -/
def IsLine (l : List α) : Prop := ∃ body, D.newline ∉ body ∧ l = body ++ [D.newline]

variable {D}

lemma key_of_ne_enter {s : Lines α} {k : Key α} (h : k ≠ .enter) :
    D.key s k = { s with current := D.edit s.current k } := by
  cases k with
  | enter => exact absurd rfl h
  | _ => rfl

/-- Edits never exceed the capacity. -/
lemma length_edit_le {l : List α} (k : Key α) (h : l.length ≤ D.capacity) :
    (D.edit l k).length ≤ D.capacity := by
  cases k with
  | insert a =>
    rw [edit]
    split
    · rw [List.length_append, List.length_singleton]
      omega
    · exact h
  | tab =>
    rw [edit, List.length_append, List.length_replicate]
    omega
  | erase =>
    rw [edit, List.length_dropLast]
    omega
  | enter => exact h

lemma length_edited_le (keys : List (Key α)) : (D.edited keys).length ≤ D.capacity := by
  have hfold : ∀ l : List α, l.length ≤ D.capacity → (keys.foldl D.edit l).length ≤ D.capacity := by
    induction keys with
    | nil => exact fun l h => h
    | cons k keys ih => exact fun l h => ih _ (length_edit_le k h)
  exact hfold [] (Nat.zero_le _)

lemma edited_concat (keys : List (Key α)) (k : Key α) :
    D.edited (keys ++ [k]) = D.edit (D.edited keys) k := by
  rw [edited, List.foldl_concat, edited]

/-- Nor do they make a newline, unless one is inserted. -/
lemma newline_notMem_edit {l : List α} {k : Key α} (hblank : D.blank ≠ D.newline)
    (hk : k ≠ .insert D.newline) (h : D.newline ∉ l) : D.newline ∉ D.edit l k := by
  cases k with
  | insert a =>
    have ha : D.newline ≠ a := fun heq => hk (by rw [heq])
    rw [edit]
    split
    · simp [h, ha]
    · exact h
  | tab =>
    rw [edit, List.mem_append, not_or]
    refine ⟨h, fun hmem => hblank ?_⟩
    exact (List.eq_of_mem_replicate hmem).symm
  | erase => exact fun hmem => h (List.mem_of_mem_dropLast hmem)
  | enter => exact h

/-- The invariant of a terminal. -/
structure WellFormed (D : Discipline α) (s : Lines α) : Prop where
  entered : ∀ l ∈ s.entered, D.IsLine l
  short : ∀ l ∈ s.entered, l.length ≤ D.capacity + 1
  current : D.newline ∉ s.current
  room : s.current.length ≤ D.capacity

lemma wellFormed_empty : D.WellFormed Lines.empty :=
  ⟨fun _ hl => absurd hl List.not_mem_nil, fun _ hl => absurd hl List.not_mem_nil,
    List.not_mem_nil, Nat.zero_le _⟩

namespace WellFormed

variable {s : Lines α}

lemma key {k : Key α} (h : D.WellFormed s) (hblank : D.blank ≠ D.newline)
    (hk : k ≠ .insert D.newline) : D.WellFormed (D.key s k) := by
  by_cases henter : k = .enter
  · subst henter
    refine ⟨fun _ hl => ?_, fun _ hl => ?_, List.not_mem_nil, Nat.zero_le _⟩
    · rcases List.mem_append.1 hl with hl | hl
      · exact h.entered _ hl
      · rw [List.mem_singleton.1 hl]
        exact ⟨s.current, h.current, rfl⟩
    · rcases List.mem_append.1 hl with hl | hl
      · exact h.short _ hl
      · rw [List.mem_singleton.1 hl, List.length_append]
        exact Nat.succ_le_succ h.room
  · rw [key_of_ne_enter henter]
    exact ⟨h.entered, h.short, newline_notMem_edit hblank hk h.current, length_edit_le k h.room⟩

lemma read {n : ℕ} {l : List α} {s' : Lines α} (h : D.WellFormed s)
    (hread : s.read n = some (l, s')) :
    (∃ line, D.IsLine line ∧ l = line.take n) ∧ D.WellFormed s' := by
  rw [Lines.read] at hread
  split at hread
  · exact absurd hread (by simp)
  · rename_i line ls hs
    obtain ⟨rfl, rfl⟩ := Prod.mk.inj (Option.some.inj hread)
    constructor
    · exact ⟨line, h.entered line (hs ▸ List.mem_cons_self ..), rfl⟩
    · have hmem : ∀ l ∈ ls, l ∈ s.entered := fun l hl => hs ▸ List.mem_cons_of_mem _ hl
      exact ⟨fun l hl => h.entered l (hmem l hl), fun l hl => h.short l (hmem l hl), h.current,
        h.room⟩

end WellFormed

/-- A part of a line has the newline as its last element, or it was cut off. -/
lemma IsLine.take {l : List α} (h : D.IsLine l) (n : ℕ) :
    (l.length ≤ n ∧ l.take n = l) ∨ (n < l.length ∧ D.newline ∉ l.take n) := by
  obtain ⟨body, hbody, rfl⟩ := h
  by_cases hn : n < (body ++ [D.newline]).length
  · refine Or.inr ⟨hn, fun hmem => hbody ?_⟩
    rw [List.length_append, List.length_singleton] at hn
    rw [List.take_append_of_le_length (by omega)] at hmem
    exact List.mem_of_mem_take hmem
  · exact Or.inl ⟨by omega, List.take_of_length_le (by omega)⟩

end Discipline

/-! ### A line in memory -/

/-- The memory `f` holds the line `l` from address 0 on. -/
def Holds (f : ℕ → α) (l : List α) : Prop := ∀ i (h : i < l.length), f i = l.get ⟨i, h⟩

namespace Holds

variable {f : ℕ → α} {l : List α}

lemma nil (f : ℕ → α) : Holds f [] := fun _ h => absurd h (Nat.not_lt_zero _)

/-- A store behind the line makes it longer. -/
lemma snoc (h : Holds f l) (a : α) : Holds (Function.update f l.length a) (l ++ [a]) := by
  intro i hi
  rw [List.length_append, List.length_singleton] at hi
  rcases Nat.lt_or_ge i l.length with hlt | hge
  · rw [Function.update_of_ne (by omega), h i hlt]
    simp [List.getElem_append_left hlt]
  · obtain rfl : i = l.length := by omega
    rw [Function.update_self]
    simp

/-- A shorter line is held as well, whatever is stored behind it. -/
lemma dropLast (h : Holds f l) (a : α) :
    Holds (Function.update f (l.length - 1) a) l.dropLast := by
  intro i hi
  have hlt : i < l.length - 1 := by rwa [List.length_dropLast] at hi
  rw [Function.update_of_ne (by omega), h i (by omega)]
  simp

end Holds

end LineDiscipline
