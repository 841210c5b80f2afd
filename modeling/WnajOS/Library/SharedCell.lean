import Mathlib.Tactic

/-!
# A cell through which many owners pass their values

Every owner puts a value in the cell and takes it back later; between the two, other owners may
use the same cell.  `Intact` says that each owner who has put a value and not yet taken it would
take back that value.  A put keeps the cell intact exactly when the values still owed to others
are the one put.
-/

variable {ι α : Type*}

/-- A cell: its value, and what is owed to the owners that have put a value and not yet taken
it, the latest first. -/
structure SharedCell (ι α : Type*) where
  value : α
  owed : List (ι × α)

namespace SharedCell

/-- The owner `i` puts `a`. -/
def put (i : ι) (a : α) (c : SharedCell ι α) : SharedCell ι α := ⟨a, (i, a) :: c.owed⟩

/-- The owner `i` has taken its value, or gives it up. -/
def drop [DecidableEq ι] (i : ι) (c : SharedCell ι α) : SharedCell ι α :=
  ⟨c.value, c.owed.filter fun x => x.1 ≠ i⟩

/-- Every owner would take back the value it put. -/
def Intact (c : SharedCell ι α) : Prop := ∀ x ∈ c.owed, x.2 = c.value

/-- A put of `a` overwrites nothing that is owed. -/
def Admits (a : α) (c : SharedCell ι α) : Prop := ∀ x ∈ c.owed, x.2 = a

instance [DecidableEq α] (a : α) (c : SharedCell ι α) : Decidable (c.Admits a) :=
  inferInstanceAs (Decidable (∀ x ∈ c.owed, x.2 = a))

variable {c : SharedCell ι α} {i : ι} {a : α}

@[simp] lemma put_value : (c.put i a).value = a := rfl

@[simp] lemma drop_value [DecidableEq ι] : (c.drop i).value = c.value := rfl

lemma intact_of_owed_nil (h : c.owed = []) : c.Intact := by
  intro x hx
  rw [h] at hx
  exact absurd hx List.not_mem_nil

/-- A put leaves the cell intact exactly when it is admitted. -/
lemma intact_put_iff : (c.put i a).Intact ↔ c.Admits a := by
  constructor
  · intro h x hx
    exact h x (List.mem_cons_of_mem _ hx)
  · intro h x hx
    rcases List.mem_cons.1 hx with rfl | hx
    · rfl
    · exact h x hx

/-- Nothing is owed to others when an owner puts its value. -/
lemma intact_put_of_owed_nil (h : c.owed = []) (i : ι) (a : α) : (c.put i a).Intact := by
  refine intact_put_iff.2 fun x hx => ?_
  rw [h] at hx
  exact absurd hx List.not_mem_nil

/-- An owner leaves without harm to the others. -/
lemma Intact.drop [DecidableEq ι] (h : c.Intact) (i : ι) : (c.drop i).Intact := by
  intro x hx
  exact h x (List.mem_of_mem_filter hx)

lemma mem_of_lookup [BEq ι] [LawfulBEq ι] (hi : c.owed.lookup i = some a) : (i, a) ∈ c.owed := by
  obtain ⟨l₁, l₂, howed, -⟩ := List.lookup_eq_some_iff.1 hi
  rw [howed]
  exact List.mem_append_right _ (List.mem_cons_self ..)

/-- What an owner takes from an intact cell is what it put. -/
lemma Intact.value_of_lookup [BEq ι] [LawfulBEq ι] (h : c.Intact)
    (hi : c.owed.lookup i = some a) : c.value = a :=
  (h (i, a) (mem_of_lookup hi)).symm

end SharedCell
