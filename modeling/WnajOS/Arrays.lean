import WnajOS.Lib

/-!
# Texts in arrays

A text that stands at an offset of an array of bytes, and the string there.
-/

namespace WnajOS

/-- The characters of a literal. -/
def text (s : String) : Str := s.toList.map fun c => UInt8.ofNat c.toNat

/-- The string at the offset `i` of an array of `size` bytes. -/
def strAt (buf : Buf) (size i : ℕ) : Str := cstr ((List.range (size - i)).map fun j => buf (i + j))

/-- The text `cs` stands at the offset `i` of an array. -/
def HoldsAt (data : Buf) (i : ℕ) (cs : Str) : Prop := ∀ j < cs.length, data (i + j) = cs.byteAt j

section Arrays

variable {data : Buf} {i : ℕ} {cs cs' : Str}

/-- The bytes of a string. -/
lemma range_map_byteAt {s : Str} (n : ℕ) (hn : n ≤ s.length) :
    (List.range n).map s.byteAt = s.take n := by
  refine List.ext_getElem (by simp [hn]) fun i hi hi' => ?_
  have hlt : i < s.length := by
    rw [List.length_map, List.length_range] at hi
    omega
  rw [List.getElem_map, List.getElem_range, List.getElem_take, Str.byteAt,
    List.getD_eq_getElem _ _ hlt]

lemma byteAt_append_left {j : ℕ} (h : j < cs.length) : Str.byteAt (cs ++ cs') j = cs.byteAt j :=
  List.getD_append _ _ _ _ h

lemma byteAt_append_right (j : ℕ) : Str.byteAt (cs ++ cs') (cs.length + j) = cs'.byteAt j := by
  rw [Str.byteAt, List.getD_append_right _ _ _ _ (Nat.le_add_right ..), Nat.add_sub_cancel_left]
  rfl

lemma byteAt_mem {j : ℕ} (h : j < cs.length) : cs.byteAt j ∈ cs := by
  rw [Str.byteAt, List.getD_eq_getElem _ _ h]
  exact List.getElem_mem h

lemma holdsAt_append : HoldsAt data i (cs ++ cs') ↔
    HoldsAt data i cs ∧ HoldsAt data (i + cs.length) cs' := by
  constructor
  · intro h
    constructor
    · intro j hj
      rw [h j (by rw [List.length_append]; omega), byteAt_append_left hj]
    · intro j hj
      rw [Nat.add_assoc, h (cs.length + j) (by rw [List.length_append]; omega),
        byteAt_append_right]
  · rintro ⟨h, h'⟩ j hj
    rw [List.length_append] at hj
    by_cases hlt : j < cs.length
    · rw [h j hlt, byteAt_append_left hlt]
    · obtain ⟨k, rfl⟩ : ∃ k, j = cs.length + k := ⟨j - cs.length, by omega⟩
      rw [← Nat.add_assoc, h' k (by omega), byteAt_append_right]

/-- An array that agrees where the text stands. -/
lemma HoldsAt.congr {data' : Buf} (h : HoldsAt data i cs)
    (heq : ∀ j < cs.length, data' (i + j) = data (i + j)) : HoldsAt data' i cs :=
  fun j hj => (heq j hj).trans (h j hj)

/-- A store behind or before the text. -/
lemma HoldsAt.update (h : HoldsAt data i cs) {k : ℕ} (hk : k < i ∨ i + cs.length ≤ k) (c : UInt8) :
    HoldsAt (Function.update data k c) i cs :=
  h.congr fun _ _ => Function.update_of_ne (by omega) ..

lemma holdsAt_cons {x : UInt8} :
    HoldsAt data i (x :: cs) ↔ data i = x ∧ HoldsAt data (i + 1) cs := by
  rw [← List.singleton_append, holdsAt_append]
  refine and_congr_left' ⟨fun h => h 0 Nat.zero_lt_one, fun h j hj => ?_⟩
  obtain rfl : j = 0 := Nat.lt_one_iff.1 hj
  exact h

/-- The string at an offset is the text there, when a `NUL` follows. -/
lemma strAt_of_holdsAt {size : ℕ} (h : HoldsAt data i cs) (hcs : 0 ∉ cs)
    (hend : data (i + cs.length) = 0) (hsize : i + cs.length < size) : strAt data size i = cs := by
  have hcstr : ∀ n, cs.length < n → cstr ((List.range n).map fun j => data (i + j)) = cs := by
    clear hsize
    induction cs generalizing i with
    | nil =>
      intro n hn
      obtain ⟨n, rfl⟩ : ∃ m, n = m + 1 := ⟨n - 1, by rw [List.length_nil] at hn; omega⟩
      have h0 : data (i + 0) = 0 := hend
      rw [List.range_succ_eq_map, List.map_cons, cstr, h0]
      rfl
    | cons x cs ih =>
      intro n hn
      obtain ⟨n, rfl⟩ : ∃ m, n = m + 1 := ⟨n - 1, by rw [List.length_cons] at hn; omega⟩
      obtain ⟨hx, hcs'⟩ := holdsAt_cons.1 h
      rw [List.mem_cons, not_or] at hcs
      have htail := ih hcs' hcs.2 (by rwa [List.length_cons, Nat.add_comm cs.length,
        ← Nat.add_assoc] at hend) n (Nat.lt_of_succ_lt_succ hn)
      have hhead : data (i + 0) = x := hx
      rw [List.range_succ_eq_map, List.map_cons, List.map_map, cstr, hhead,
        List.takeWhile_cons_of_pos (by simpa using Ne.symm hcs.1)]
      refine congrArg (x :: ·) (Eq.trans ?_ htail)
      refine congrArg cstr (List.map_congr_left fun j _ => ?_)
      exact congrArg data (by rw [Nat.succ_eq_add_one]; omega)
  exact hcstr _ (by omega)

/-- The end of a text. -/
lemma HoldsAt.drop (h : HoldsAt data i cs) (n : ℕ) : HoldsAt data (i + n) (cs.drop n) := by
  intro j hj
  rw [List.length_drop] at hj
  have hbyte := h (n + j) (by omega)
  rw [← Nat.add_assoc] at hbyte
  rw [hbyte, Str.byteAt, Str.byteAt, List.getD_eq_getElem?_getD, List.getD_eq_getElem?_getD,
    List.getElem?_drop]

/-- The beginning of a text. -/
lemma HoldsAt.take (h : HoldsAt data i cs) (n : ℕ) : HoldsAt data i (cs.take n) := by
  rw [← List.take_append_drop n cs, holdsAt_append] at h
  exact h.1

/-- The bytes of a text are among its characters. -/
lemma HoldsAt.ne {c : UInt8} (h : HoldsAt data i cs) (hc : c ∉ cs) {k : ℕ} (hik : i ≤ k)
    (hk : k < i + cs.length) : data k ≠ c := by
  have hbyte := h (k - i) (by omega)
  rw [Nat.add_sub_cancel' hik] at hbyte
  rw [hbyte]
  exact fun heq => hc (heq ▸ byteAt_mem (by omega))

/-- A text is a string up to its first `NUL`, also when that follows the text. -/
lemma HoldsAt.cstr (h : HoldsAt data i cs) (hend : data (i + cs.length) = 0) :
    HoldsAt data i (cstr cs) ∧ data (i + (WnajOS.cstr cs).length) = 0 := by
  have hle := strlen_le_length cs
  constructor
  · intro j hj
    have hlt : j < strlen cs := hj
    rw [h j (by omega), byteAt_cstr hlt]
  · change data (i + strlen cs) = 0
    by_cases heq : strlen cs = cs.length
    · rwa [heq]
    · rw [h _ (by omega)]
      exact byteAt_strlen cs

/-- The string at the offset of a text. -/
lemma strAt_eq_cstr {size : ℕ} (h : HoldsAt data i cs) (hend : data (i + cs.length) = 0)
    (hsize : i + cs.length < size) : strAt data size i = cstr cs := by
  obtain ⟨hstr, hnul⟩ := h.cstr hend
  have hle : (WnajOS.cstr cs).length ≤ cs.length := strlen_le_length cs
  exact strAt_of_holdsAt hstr (fun h0 => cstr_ne_zero h0 rfl) hnul (by omega)

end Arrays

end WnajOS
