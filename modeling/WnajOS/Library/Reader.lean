import Mathlib.Tactic

/-!
# Repeated reads

A reader is a function `read : ℕ → S → R × S`: the `k`-th read, whose arguments may depend on
`k`, takes a state to a result and the next state.  The file packages what is proved of every
loop of reads: an invariant that may mention how many reads were made, and the end of a loop
whose position grows at every read until it has reached a bound.
-/

namespace Reader

variable {S R : Type*}

/-- The state before the `k`-th read. -/
def state (read : ℕ → S → R × S) (s : S) : ℕ → S
  | 0 => s
  | k + 1 => (read k (state read s k)).2

/-- The result of the `k`-th read. -/
def result (read : ℕ → S → R × S) (s : S) (k : ℕ) : R := (read k (state read s k)).1

variable {read : ℕ → S → R × S} {s : S}

@[simp] lemma state_zero : state read s 0 = s := rfl

/-- **The invariant rule.**  What holds at the start and is carried on by every read holds
before every read. -/
theorem invariant {P : ℕ → S → Prop} (h₀ : P 0 s)
    (hstep : ∀ k s, P k s → P (k + 1) (read k s).2) (k : ℕ) : P k (state read s k) := by
  induction k with
  | zero => exact h₀
  | succ k ih => exact hstep k _ ih

/-- **The end rule.**  A position that never exceeds the bound and grows at every read below
it comes to the bound. -/
theorem ends {P : S → Prop} (read : ℕ → S → R × S) (pos : S → ℕ) (bound : ℕ) (h₀ : P s)
    (hle : ∀ s, P s → pos s ≤ bound) (hstep : ∀ k s, P s → P (read k s).2)
    (hgrow : ∀ k s, P s → pos s < bound → pos s < pos (read k s).2) :
    ∃ k, pos (state read s k) = bound ∧ ∀ j < k, pos (state read s j) < bound := by
  have hP (k : ℕ) : P (state read s k) :=
    invariant (P := fun _ => P) h₀ hstep k
  have hex : ∃ k, pos (state read s k) = bound := by
    by_contra hno
    -- below the bound the position is at least the number of reads
    have hlt (k : ℕ) : pos (state read s k) < bound :=
      lt_of_le_of_ne (hle _ (hP k)) fun heq => hno ⟨k, heq⟩
    have hge (k : ℕ) : k ≤ pos (state read s k) := by
      induction k with
      | zero => exact Nat.zero_le _
      | succ k ih => exact lt_of_le_of_lt ih (hgrow k _ (hP k) (hlt k))
    exact absurd (hlt bound) (not_lt.2 (hge bound))
  classical
  refine ⟨Nat.find hex, Nat.find_spec hex, fun j hj => ?_⟩
  exact lt_of_le_of_ne (hle _ (hP j)) (Nat.find_min hex hj)

end Reader
