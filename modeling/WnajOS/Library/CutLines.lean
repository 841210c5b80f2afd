import Mathlib.Tactic

/-!
# Lines cut at a width

The lines of a text are what stands between its separators.  A reader with a buffer of `n` symbols
sees a line that is longer in pieces of `n`, from its front on.  The empty pieces are left out.

A reader that fills its buffer again has to keep what it has of the last line.  When it does, the
pieces that it sees, one buffer after the other, are those of the lines.
-/

namespace CutLines

variable {α : Type} [DecidableEq α] {n : ℕ} {sep : α} {l r t : List α}

/-- A line in pieces of `n` symbols. -/
def cut (n : ℕ) (l : List α) : List (List α) :=
  if h : n = 0 ∨ l = [] then []
  else l.take n :: cut n (l.drop n)
termination_by l.length
decreasing_by
  push Not at h
  have hpos := List.length_pos_iff.2 h.2
  rw [List.length_drop]
  omega

/-- The pieces of all lines of a text. -/
def lines (n : ℕ) (sep : α) (t : List α) : List (List α) := (t.splitOn sep).flatMap (cut n)

omit [DecidableEq α] in
@[simp] lemma cut_nil : cut n ([] : List α) = [] := by
  rw [cut, dif_pos (Or.inr rfl)]

omit [DecidableEq α] in
/-- The first piece of a line is full, or it is the line. -/
lemma cut_append (hn : 0 < n) (hl : l ≠ []) (h : l.length = n ∨ l.length ≤ n ∧ r = []) :
    cut n (l ++ r) = l :: cut n r := by
  have hpos := List.length_pos_iff.2 hl
  have htake : (l ++ r).take n = l ∧ (l ++ r).drop n = r := by
    rcases h with rfl | ⟨hle, rfl⟩
    · exact ⟨List.take_left, List.drop_left⟩
    · rw [List.append_nil]
      exact ⟨List.take_of_length_le hle, List.drop_of_length_le hle⟩
  have hne : ¬(n = 0 ∨ l ++ r = []) := by
    rintro (h0 | hnil)
    · omega
    · exact hl (List.append_eq_nil_iff.1 hnil).1
  rw [cut, dif_neg hne, htake.1, htake.2]

/-- Below the first separator there is one line. -/
lemma lines_append_sep (hl : sep ∉ l) : lines n sep (l ++ sep :: t) = cut n l ++ lines n sep t := by
  rw [lines, List.splitOn_append_cons_self_of_not_mem hl, List.flatMap_cons]
  rfl

/-- A text without separators is one line. -/
lemma lines_of_notMem (hl : sep ∉ l) : lines n sep l = cut n l := by
  rw [lines, List.splitOn_eq_singleton hl, List.flatMap_singleton]

/-- A buffer that is full, or the last one, without a separator is a piece by itself. -/
lemma lines_append (hn : 0 < n) (hl : sep ∉ l) (h : l.length = n ∨ l.length ≤ n ∧ t = []) :
    lines n sep (l ++ t) = (if l = [] then [] else [l]) ++ lines n sep t := by
  split
  · rename_i hnil
    rw [hnil, List.nil_append, List.nil_append]
  rename_i hne
  by_cases hsep : sep ∈ t
  · -- the piece is the beginning of the first line
    obtain ⟨r, t', rfl, hr⟩ := List.eq_append_cons_of_mem hsep
    have hfull : l.length = n := h.resolve_right fun h => by simp at h
    have hlr : sep ∉ l ++ r := by
      rw [List.mem_append, not_or]
      exact ⟨hl, hr⟩
    rw [← List.append_assoc, lines_append_sep hlr, lines_append_sep hr,
      cut_append hn hne (Or.inl hfull)]
    rfl
  · have hlt : sep ∉ l ++ t := by
      rw [List.mem_append, not_or]
      exact ⟨hl, hsep⟩
    rw [lines_of_notMem hlt, lines_of_notMem hsep, cut_append hn hne h]
    rfl

/-- **Lines that fit** are not cut. -/
lemma lines_of_fits (hn : 0 < n) (h : ∀ l ∈ t.splitOn sep, l.length ≤ n) :
    lines n sep t = (t.splitOn sep).filter (· ≠ []) := by
  rw [lines]
  generalize t.splitOn sep = ls at h
  induction ls with
  | nil => rfl
  | cons l ls ih =>
    have ih' := ih fun l' hl' => h l' (List.mem_cons_of_mem _ hl')
    have hle := h l (List.mem_cons_self ..)
    rw [List.flatMap_cons, List.filter_cons, ih']
    by_cases hnil : l = []
    · simp [hnil]
    · have hcut := cut_append (r := []) hn hnil (Or.inr ⟨hle, rfl⟩)
      rw [List.append_nil, cut_nil] at hcut
      simp [hcut, hnil]

/-! ### A reader that fills its buffer again -/

/-- A text is one line, or a line and the text behind its separator. -/
@[elab_as_elim]
lemma lines_induction (sep : α) {P : List α → Prop} (last : ∀ l, sep ∉ l → P l)
    (line : ∀ l t, sep ∉ l → P t → P (l ++ sep :: t)) (t : List α) : P t := by
  induction hlen : t.length using Nat.strong_induction_on generalizing t with
  | _ m ih =>
    by_cases hsep : sep ∈ t
    · obtain ⟨l, t', rfl, hl⟩ := List.eq_append_cons_of_mem hsep
      rw [List.length_append, List.length_cons] at hlen
      exact line l t' hl (ih t'.length (by omega) t' rfl)
    · exact last t hsep

/-- The lines of a text that end with a separator. -/
def ended (sep : α) (t : List α) : List (List α) := (t.splitOn sep).dropLast

/-- What stands behind the last separator of a text. -/
def unended (sep : α) (t : List α) : List α := (t.splitOn sep).getLastD []

lemma ended_of_notMem (hl : sep ∉ l) : ended sep l = [] := by
  rw [ended, List.splitOn_eq_singleton hl]
  rfl

lemma unended_of_notMem (hl : sep ∉ l) : unended sep l = l := by
  rw [unended, List.splitOn_eq_singleton hl]
  rfl

lemma ended_append_sep (hl : sep ∉ l) : ended sep (l ++ sep :: t) = l :: ended sep t := by
  rw [ended, List.splitOn_append_cons_self_of_not_mem hl,
    List.dropLast_cons_of_ne_nil (List.splitOn_ne_nil sep t)]
  rfl

lemma unended_append_sep (hl : sep ∉ l) : unended sep (l ++ sep :: t) = unended sep t := by
  rw [unended, unended, List.splitOn_append_cons_self_of_not_mem hl]
  obtain ⟨x, xs, hx⟩ := List.exists_cons_of_ne_nil (List.splitOn_ne_nil sep t)
  rw [hx, List.getLastD_cons, List.getLastD_cons, List.getLastD_cons]

lemma sep_notMem_unended (sep : α) (t : List α) : sep ∉ unended sep t := by
  induction t using lines_induction sep with
  | last l hl => rwa [unended_of_notMem hl]
  | line l t hl ih => rwa [unended_append_sep hl]

/-- The end of a text with a separator is shorter. -/
lemma length_unended_lt (h : sep ∈ t) : (unended sep t).length < t.length := by
  induction t using lines_induction sep with
  | last l hl => exact absurd h hl
  | line l t hl ih =>
    rw [unended_append_sep hl, List.length_append, List.length_cons]
    by_cases ht : sep ∈ t
    · have hlt := ih ht
      omega
    · rw [unended_of_notMem ht]
      omega

lemma mem_of_mem_unended {x : α} (h : x ∈ unended sep t) : x ∈ t := by
  induction t using lines_induction sep with
  | last l hl => rwa [unended_of_notMem hl] at h
  | line l t hl ih =>
    rw [unended_append_sep hl] at h
    exact List.mem_append_right l (List.mem_cons_of_mem sep (ih h))

/-- The lines of a text that fits into the buffer, before another one. -/
lemma lines_append_text (hn : 0 < n) (hle : t.length ≤ n) (r : List α) :
    lines n sep (t ++ r) =
      (ended sep t).filter (· ≠ []) ++ lines n sep (unended sep t ++ r) := by
  induction t using lines_induction sep with
  | last l hl =>
    rw [ended_of_notMem hl, unended_of_notMem hl]
    rfl
  | line l t hl ih =>
    rw [List.length_append, List.length_cons] at hle
    have hcut : cut n l = [l].filter (· ≠ []) := by
      by_cases hnil : l = []
      · simp [hnil]
      · have hone := cut_append (r := []) hn hnil (Or.inr ⟨by omega, rfl⟩)
        rw [List.append_nil, cut_nil] at hone
        simp [hone, hnil]
    rw [ended_append_sep hl, unended_append_sep hl, List.append_assoc, List.cons_append,
      lines_append_sep hl, ih (by omega), hcut, ← List.append_assoc, ← List.filter_append]
    rfl

/-- The pieces that a reader sees.  It fills the buffer behind the symbols `carry` and goes through
the lines that end there; what stands behind the last separator of the buffer `w` stays as `keep w`
says.  A buffer without a separator is a piece, and so is what stays at the end. -/
def pieces (keep : List α → List α → List α) (n : ℕ) (sep : α) (carry rest : List α) :
    List (List α) :=
  if h : rest = [] ∨ n ≤ carry.length then [carry]
  else
    let w := carry ++ rest.take (n - carry.length)
    let rest' := rest.drop (n - carry.length)
    if sep ∈ w then ended sep w ++ pieces keep n sep (keep w (unended sep w)) rest'
    else w :: pieces keep n sep [] rest'
termination_by rest.length
decreasing_by
  all_goals
    push Not at h
    have hpos := List.length_pos_iff.2 h.1
    rw [List.length_drop]
    omega

section Reader

variable {keep : List α → List α → List α} {carry rest : List α}

lemma pieces_nil : pieces keep n sep carry [] = [carry] := by
  rw [pieces, dif_pos (Or.inl rfl)]

/-- The next buffer. -/
lemma pieces_append {chunk : List α} (hne : chunk ++ rest ≠ []) (hlt : carry.length < n)
    (h : carry.length + chunk.length = n ∨ carry.length + chunk.length ≤ n ∧ rest = []) :
    pieces keep n sep carry (chunk ++ rest) =
      if sep ∈ carry ++ chunk then ended sep (carry ++ chunk) ++
        pieces keep n sep (keep (carry ++ chunk) (unended sep (carry ++ chunk))) rest
      else (carry ++ chunk) :: pieces keep n sep [] rest := by
  have hsplit : (chunk ++ rest).take (n - carry.length) = chunk ∧
      (chunk ++ rest).drop (n - carry.length) = rest := by
    rcases h with hfull | ⟨hle, rfl⟩
    · have hlen : n - carry.length = chunk.length := by omega
      rw [hlen]
      exact ⟨List.take_left, List.drop_left⟩
    · rw [List.append_nil]
      exact ⟨List.take_of_length_le (by omega), List.drop_of_length_le (by omega)⟩
  rw [pieces, dif_neg (not_or.2 ⟨hne, by omega⟩), hsplit.1, hsplit.2]

/-- **A reader that keeps the last line** sees the lines, cut at the length of its buffer. -/
theorem pieces_of_keep {p : α → Prop} (hkeep : ∀ w l, (∀ x ∈ l, p x) → keep w l = l)
    (hp : ∀ x ∈ carry ++ rest, p x) (hsep : sep ∉ carry) (hlt : carry.length < n) :
    (pieces keep n sep carry rest).filter (· ≠ []) = lines n sep (carry ++ rest) := by
  induction hm : rest.length using Nat.strong_induction_on generalizing carry rest with
  | _ m ih =>
    have hn : 0 < n := by omega
    by_cases hnil : rest = []
    · subst hnil
      have hlast : lines n sep (carry ++ []) = if carry = [] then [] else [carry] := by
        rw [lines_append (t := []) hn hsep (Or.inr ⟨hlt.le, rfl⟩),
          lines_of_notMem List.not_mem_nil, cut_nil, List.append_nil]
      rw [pieces_nil, hlast]
      by_cases hcarry : carry = []
      · simp [hcarry]
      · simp [hcarry]
    · obtain ⟨chunk, rest, rfl, hfill⟩ : ∃ chunk rest', rest = chunk ++ rest' ∧
          (carry.length + chunk.length = n ∨ carry.length + chunk.length ≤ n ∧ rest' = []) := by
        refine ⟨rest.take (n - carry.length), rest.drop (n - carry.length),
          (List.take_append_drop ..).symm, ?_⟩
        rw [List.length_take, List.drop_eq_nil_iff]
        omega
      have hpos : chunk ≠ [] := by
        rintro rfl
        rcases hfill with hfull | ⟨-, rfl⟩
        · rw [List.length_nil] at hfull
          omega
        · exact hnil rfl
      have hlen := List.length_pos_iff.2 hpos
      rw [List.length_append] at hm
      rw [← List.append_assoc] at hp ⊢
      have hrest : ∀ x ∈ rest, p x := fun x hx => hp x (List.mem_append_right _ hx)
      rw [pieces_append hnil hlt hfill]
      have hsize : (carry ++ chunk).length ≤ n := by
        rw [List.length_append]
        omega
      split
      · rename_i hmem
        have hshort := length_unended_lt hmem
        have hsame : keep (carry ++ chunk) (unended sep (carry ++ chunk)) =
            unended sep (carry ++ chunk) :=
          hkeep _ _ fun x hx => hp x (List.mem_append_left _ (mem_of_mem_unended hx))
        have hmoved : ∀ x ∈ unended sep (carry ++ chunk) ++ rest, p x := by
          intro x hx
          rcases List.mem_append.1 hx with hx | hx
          · exact hp x (List.mem_append_left _ (mem_of_mem_unended hx))
          · exact hrest x hx
        have hnext := ih rest.length (by omega) hmoved (sep_notMem_unended _ _) (by omega) rfl
        rw [hsame, List.filter_append, hnext, lines_append_text hn hsize]
      · rename_i hmem
        have hnext : (pieces keep n sep [] rest).filter (· ≠ []) = lines n sep ([] ++ rest) :=
          ih rest.length (by omega) hrest List.not_mem_nil hn rfl
        rw [List.nil_append] at hnext
        have hfill' : (carry ++ chunk).length = n ∨ (carry ++ chunk).length ≤ n ∧ rest = [] := by
          rw [List.length_append]
          exact hfill
        rw [lines_append hn hmem hfill', ← hnext, List.filter_cons]
        by_cases hw : carry ++ chunk = []
        · simp [hw]
        · simp [hw]

end Reader

end CutLines
