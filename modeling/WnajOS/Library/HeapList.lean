import Mathlib.Tactic

/-!
# Linked lists in a heap

Every cell of a heap has a link, to another cell or to none.  A list starts at a head, which is a
link as well.  `Chain` says which cells a link leads to; the walks over a list below are loops that
follow the links, with a bound on the number of cells they visit.
-/

namespace HeapList

variable {A S : Type*}

/-- The link `q` leads to the cells `ps`, one after the other, and the last of them has no link. -/
inductive Chain (next : A → Option A) : Option A → List A → Prop
  | nil : Chain next none []
  | cons {p : A} {ps : List A} : Chain next (next p) ps → Chain next (some p) (p :: ps)

/-- The search for a cell, over at most `n` cells; `none` when it has not ended there. -/
def search (hit : A → Bool) (next : A → Option A) : ℕ → Option A → Option (Option A)
  | _, none => some none
  | 0, some _ => none
  | n + 1, some p => if hit p then some (some p) else search hit next n (next p)

/-- The loop that changes the state at every cell and reads the link after the change. -/
def forEach (next : S → A → Option A) (f : A → S → S) : ℕ → Option A → S → Option S
  | _, none, s => some s
  | 0, some _, _ => none
  | n + 1, some p, s => forEach next f n (next (f p s) p) (f p s)

/-- What a place that holds a link holds: the head (`none`), or the link of a cell. -/
def linkAt (head : Option A) (next : A → Option A) : Option A → Option A
  | none => head
  | some c => next c

/-- The search for the place that links to the cell `p`, from a place on. -/
def placeOf [DecidableEq A] (head : Option A) (next : A → Option A) (p : A) :
    ℕ → Option A → Option (Option A)
  | 0, _ => none
  | n + 1, place =>
    if linkAt head next place = some p then some place
    else match linkAt head next place with
      | none => none
      | some c => placeOf head next p n (some c)

namespace Chain

variable {next next' : A → Option A} {q : Option A} {p : A} {ps : List A}

lemma of_some (h : Chain next (some p) ps) : ∃ qs, ps = p :: qs ∧ Chain next (next p) qs := by
  cases h with
  | cons h => exact ⟨_, rfl, h⟩

/-- The cells of a list are determined by its head. -/
lemma unique {ps' : List A} (h : Chain next q ps) (h' : Chain next q ps') : ps = ps' := by
  induction h generalizing ps' with
  | nil =>
    cases h'
    rfl
  | cons _ ih =>
    obtain ⟨qs, rfl, hqs⟩ := h'.of_some
    rw [ih hqs]

/-- The cells from one cell of a list on. -/
lemma of_mem (h : Chain next q ps) (hp : p ∈ ps) :
    ∃ before after, ps = before ++ p :: after ∧ Chain next (next p) after := by
  induction h with
  | nil => exact absurd hp List.not_mem_nil
  | @cons c ps h ih =>
    rcases List.mem_cons.1 hp with rfl | hp
    · exact ⟨[], ps, rfl, h⟩
    · obtain ⟨before, after, rfl, hafter⟩ := ih hp
      exact ⟨c :: before, after, rfl, hafter⟩

/-- A list that ends never comes to a cell twice. -/
lemma nodup (h : Chain next q ps) : ps.Nodup := by
  induction h with
  | nil => exact List.nodup_nil
  | @cons c ps h ih =>
    refine List.nodup_cons.2 ⟨fun hc => ?_, ih⟩
    -- the cells behind the second visit would be those behind the first one
    obtain ⟨before, after, rfl, hafter⟩ := h.of_mem hc
    have hlen := congrArg List.length (h.unique hafter)
    rw [List.length_append, List.length_cons] at hlen
    omega

/-- Only the links of its own cells matter. -/
lemma congr (h : Chain next q ps) (heq : ∀ c ∈ ps, next' c = next c) : Chain next' q ps := by
  induction h with
  | nil => exact Chain.nil
  | @cons c ps _ ih =>
    refine Chain.cons ?_
    rw [heq c List.mem_cons_self]
    exact ih fun c' hc' => heq c' (List.mem_cons_of_mem c hc')

/-- A new cell in front. -/
lemma push [DecidableEq A] (h : Chain next q ps) (hp : p ∉ ps) :
    Chain (Function.update next p q) (some p) (p :: ps) := by
  refine Chain.cons ?_
  rw [Function.update_self]
  refine h.congr fun c hc => Function.update_of_ne ?_ _ _
  rintro rfl
  exact hp hc

/-- The search ends at the first cell that is looked for, or at the end of the list. -/
lemma search_eq (h : Chain next q ps) (hit : A → Bool) {n : ℕ} (hn : ps.length ≤ n) :
    search hit next n q = some (ps.find? hit) := by
  induction h generalizing n with
  | nil =>
    cases n with
    | zero => rfl
    | succ n => rfl
  | @cons c ps _ ih =>
    obtain ⟨n, rfl⟩ : ∃ m, n = m + 1 := ⟨n - 1, by rw [List.length_cons] at hn; omega⟩
    rw [search, List.find?_cons]
    cases hit c with
    | true => rfl
    | false => exact ih (Nat.le_of_succ_le_succ hn)

/-- The loop over a list whose links it keeps visits its cells in order. -/
lemma forEach_eq {next : S → A → Option A} {f : A → S → S} {s : S} (h : Chain (next s) q ps)
    (hf : ∀ c s, next (f c s) = next s) {n : ℕ} (hn : ps.length ≤ n) :
    forEach next f n q s = some (ps.foldl (fun s c => f c s) s) := by
  induction ps generalizing q s n with
  | nil =>
    cases h
    cases n with
    | zero => rfl
    | succ n => rfl
  | cons c ps ih =>
    cases h with
    | cons h =>
      obtain ⟨n, rfl⟩ : ∃ m, n = m + 1 := ⟨n - 1, by rw [List.length_cons] at hn; omega⟩
      rw [forEach, List.foldl_cons]
      refine ih ?_ (Nat.le_of_succ_le_succ hn)
      rw [hf]
      exact h

/-- **Taking a cell out.**  The search finds the place that links to the cell, and when that place
gets the link of the cell the other cells are left, in their order. -/
lemma unlink [DecidableEq A] {head : Option A} {place : Option A} {n : ℕ}
    (h : Chain next (linkAt head next place) ps) (hplace : ∀ c ∈ place, c ∉ ps) (hp : p ∈ ps)
    (hn : ps.length ≤ n) :
    ∃ place', placeOf head next p n place = some place' ∧
      (place' = place ∨ ∃ c ∈ ps, place' = some c) ∧
      match place' with
      | none => place = none ∧ Chain next (next p) (ps.erase p)
      | some c => Chain (Function.update next c (next p))
          (linkAt head (Function.update next c (next p)) place) (ps.erase p) := by
  induction n generalizing place ps with
  | zero =>
    rw [Nat.le_zero, List.length_eq_zero_iff] at hn
    rw [hn] at hp
    exact absurd hp List.not_mem_nil
  | succ n ih =>
    obtain ⟨c, hc⟩ : ∃ c, linkAt head next place = some c := by
      cases hq : linkAt head next place with
      | none =>
        rw [hq] at h
        cases h
        exact absurd hp List.not_mem_nil
      | some c => exact ⟨c, rfl⟩
    rw [hc] at h
    have hnd := h.nodup
    obtain ⟨qs, rfl, hqs⟩ := h.of_some
    have hcq : c ∉ qs := (List.nodup_cons.1 hnd).1
    rw [placeOf, hc]
    by_cases hcp : c = p
    · subst hcp
      rw [if_pos rfl, List.erase_cons_head]
      refine ⟨place, rfl, Or.inl rfl, ?_⟩
      cases place with
      | none => exact ⟨rfl, hqs⟩
      | some b =>
        dsimp only
        rw [linkAt, Function.update_self]
        refine hqs.congr fun c' hc' => Function.update_of_ne ?_ _ _
        rintro rfl
        exact hplace c' rfl (List.mem_cons_of_mem _ hc')
    · rw [if_neg fun heq => hcp (Option.some.inj heq)]
      have hpq : p ∈ qs := (List.mem_cons.1 hp).resolve_left fun heq => hcp heq.symm
      have hrest : Chain next (linkAt head next (some c)) qs := hqs
      obtain ⟨place', hfound, hwhere, hchain⟩ := ih hrest
        (fun c' hc' => by
          obtain rfl := Option.some.inj hc'
          exact hcq) hpq (Nat.le_of_succ_le_succ hn)
      refine ⟨place', hfound, Or.inr ?_, ?_⟩
      · rcases hwhere with rfl | ⟨c', hc', rfl⟩
        · exact ⟨c, List.mem_cons_self, rfl⟩
        · exact ⟨c', List.mem_cons_of_mem _ hc', rfl⟩
      · cases place' with
        | none => exact absurd hchain.1 (by simp)
        | some b =>
          dsimp only at hchain ⊢
          -- the cell before is not the one whose link changes
          have hb : ∀ c' ∈ place, c' ≠ b := by
            rintro c' hc' rfl
            rcases hwhere with heq | ⟨c'', hc'', heq⟩
            · obtain rfl := Option.some.inj heq
              exact hplace _ hc' List.mem_cons_self
            · obtain rfl := Option.some.inj heq
              exact hplace _ hc' (List.mem_cons_of_mem _ hc'')
          have hlink : linkAt head (Function.update next b (next p)) place = some c := by
            cases place with
            | none => exact hc
            | some a =>
              rw [linkAt, Function.update_of_ne (hb a rfl)]
              exact hc
          rw [hlink, List.erase_cons_tail (by simpa using hcp)]
          exact Chain.cons hchain

/-- Taking a cell out of a whole list. -/
lemma unlink_head [DecidableEq A] {head : Option A} {n : ℕ} (h : Chain next head ps) (hp : p ∈ ps)
    (hn : ps.length ≤ n) : ∃ place, placeOf head next p n none = some place ∧
      match place with
      | none => Chain next (next p) (ps.erase p)
      | some c => c ∈ ps ∧ Chain (Function.update next c (next p)) head (ps.erase p) := by
  have hall : Chain next (linkAt head next none) ps := h
  obtain ⟨place, hfound, hwhere, hchain⟩ := hall.unlink (fun _ hc => absurd hc (by simp)) hp hn
  refine ⟨place, hfound, ?_⟩
  cases place with
  | none => exact hchain.2
  | some c =>
    rcases hwhere with heq | ⟨c', hc', heq⟩
    · exact absurd heq (by simp)
    · obtain rfl := Option.some.inj heq
      exact ⟨hc', hchain⟩

end Chain

/-- The first element that is looked for, taken out. -/
lemma eraseP_of_find? [DecidableEq A] {hit : A → Bool} {p : A} {ps : List A}
    (h : ps.find? hit = some p) : ps.eraseP hit = ps.erase p := by
  induction ps with
  | nil => rfl
  | cons c ps ih =>
    rw [List.find?_cons] at h
    cases hc : hit c with
    | true =>
      rw [hc] at h
      obtain rfl := Option.some.inj h
      rw [List.eraseP_cons_of_pos hc, List.erase_cons_head]
    | false =>
      rw [hc] at h
      have hne : c ≠ p := by
        rintro rfl
        exact absurd (List.find?_some h) (by simp [hc])
      rw [List.eraseP_cons_of_neg (by simp [hc]), List.erase_cons_tail (by simpa using hne), ih h]

/-- A loop that always finds a next cell never ends. -/
lemma forEach_endless {next : S → A → Option A} {f : A → S → S} {P : S → A → Prop}
    (hstep : ∀ s p, P s p → ∃ p', next (f p s) p = some p' ∧ P (f p s) p') {s : S} {p : A}
    (h : P s p) (n : ℕ) : forEach next f n (some p) s = none := by
  induction n generalizing s p with
  | zero => rfl
  | succ n ih =>
    obtain ⟨p', hnext, h'⟩ := hstep s p h
    rw [forEach, hnext]
    exact ih h'

end HeapList
