import Mathlib.Tactic
import Mathlib.Data.List.GetD
import Mathlib.Data.List.TakeWhile

/-!
# The string functions of `lib.c`

A buffer handed to a function is the sequence of the bytes at its address (`Buf`); a string
argument is the list of the bytes at its address, up to and not including the last
terminator the function could reach, so that reading past the end of the list reads `NUL`.
-/

namespace WnajOS

/-- The bytes at an address, by their offset from it. -/
abbrev Buf := ℕ → UInt8

/-- The bytes of a string, as the pointer to it sees them. -/
abbrev Str := List UInt8

/-- `s[i]`. -/
def Str.byteAt (s : Str) (i : ℕ) : UInt8 := s.getD i 0

/-- `strlen`: the number of bytes before the first `NUL`. -/
def strlen (s : Str) : ℕ := (s.takeWhile (· ≠ 0)).length

/-- The string at an address: the bytes before the first `NUL`. -/
def cstr (s : Str) : Str := s.takeWhile (· ≠ 0)

/-- The loop of `strncmp`, with `n` comparisons left, at index `i`. -/
def strncmpFrom (s1 s2 : Str) : (n i : ℕ) → ℤ
  | 0, _ => 0
  | n + 1, i =>
    if s1.byteAt i ≠ s2.byteAt i ∨ s1.byteAt i = 0 then
      (s1.byteAt i).toInt8.toInt - (s2.byteAt i).toInt8.toInt
    else strncmpFrom s1 s2 n (i + 1)

/-- `strncmp`: zero when the strings agree up to a common `NUL` or over `n` bytes. -/
def strncmp (s1 s2 : Str) (n : ℕ) : ℤ := strncmpFrom s1 s2 n 0

/-- The second loop of `strncpy`: `n` bytes from index `i` on become `NUL`. -/
def strncpyZero : (n i : ℕ) → Buf → Buf
  | 0, _, dest => dest
  | n + 1, i, dest => strncpyZero n (i + 1) (Function.update dest i 0)

/-- The first loop of `strncpy`, with room for `n` bytes, at index `i`. -/
def strncpyFrom (src : Str) : (n i : ℕ) → Buf → Buf
  | 0, _, dest => dest
  | n + 1, i, dest =>
    if src.byteAt i ≠ 0 then
      strncpyFrom src n (i + 1) (Function.update dest i (src.byteAt i))
    else strncpyZero (n + 1) i dest

/-- `strncpy`: at most `n` bytes of `src`, filled up with `NUL` to `n` bytes. -/
def strncpy (dest : Buf) (src : Str) (n : ℕ) : Buf := strncpyFrom src n 0 dest

/-- `memcpy`: the first `n` bytes of `src` replace those of `dest`. -/
def memcpy (dest src : Buf) (n : ℕ) : Buf := fun i => if i < n then src i else dest i

/-- `memset`: the first `n` bytes become `c`. -/
def memset (dest : Buf) (c : UInt8) (n : ℕ) : Buf := fun i => if i < n then c else dest i

/-- `rep movsb` upwards: `n` bytes from `src` on. -/
def movsbUp : (n dest src : ℕ) → Buf → Buf
  | 0, _, _, mem => mem
  | n + 1, dest, src, mem => movsbUp n (dest + 1) (src + 1) (Function.update mem dest (mem src))

/-- `rep movsb` downwards: `n` bytes from `src` on, the last one first. -/
def movsbDown : (n dest src : ℕ) → Buf → Buf
  | 0, _, _, mem => mem
  | n + 1, dest, src, mem =>
    movsbDown n dest src (Function.update mem (dest + n) (mem (src + n)))

/-- `memmove` within one memory. -/
def memmove (dest src n : ℕ) (mem : Buf) : Buf :=
  if dest ≤ src then movsbUp n dest src mem else movsbDown n dest src mem

/-! ### Bytes and lengths of strings -/

lemma Str.byteAt_of_ge {s : Str} {i : ℕ} (h : s.length ≤ i) : s.byteAt i = 0 := by
  rw [Str.byteAt, List.getD_eq_default _ _ h]

lemma byteAt_take (s : Str) (n i : ℕ) :
    Str.byteAt (s.take n) i = if i < n then s.byteAt i else 0 := by
  rw [Str.byteAt, Str.byteAt, List.getD_eq_getElem?_getD, List.getD_eq_getElem?_getD,
    List.getElem?_take]
  split
  · rfl
  · rfl

lemma strlen_le_length (s : Str) : strlen s ≤ s.length :=
  (List.takeWhile_prefix _).length_le

/-- Below `strlen` there is no `NUL`. -/
lemma byteAt_ne_zero_of_lt_strlen {s : Str} {i : ℕ} (h : i < strlen s) : s.byteAt i ≠ 0 := by
  have hlen : i < s.length := lt_of_lt_of_le h (strlen_le_length s)
  have hpre : i < (s.takeWhile (· ≠ 0)).length := h
  have hget : s.byteAt i = (s.takeWhile (· ≠ 0))[i] := by
    rw [Str.byteAt, List.getD_eq_getElem _ _ hlen, (List.takeWhile_prefix _).getElem hpre]
  have hmem : (s.takeWhile (· ≠ 0))[i] ∈ s.takeWhile (· ≠ 0) := List.getElem_mem hpre
  rw [hget]
  simpa using List.mem_takeWhile_imp hmem

/-- At `strlen` there is a `NUL`. -/
lemma byteAt_strlen (s : Str) : s.byteAt (strlen s) = 0 := by
  induction s with
  | nil => rfl
  | cons a s ih =>
    by_cases ha : a = 0
    · simp [strlen, Str.byteAt, ha]
    · have hs : strlen (a :: s) = strlen s + 1 := by simp [strlen, ha]
      rw [hs]
      simpa [Str.byteAt] using ih

/-! ### The string at an address -/

lemma byteAt_cstr {s : Str} {i : ℕ} (h : i < strlen s) : (cstr s).byteAt i = s.byteAt i := by
  have hlen : i < s.length := lt_of_lt_of_le h (strlen_le_length s)
  have hpre : i < (s.takeWhile (· ≠ 0)).length := h
  rw [cstr, Str.byteAt, Str.byteAt, List.getD_eq_getElem _ _ hlen, List.getD_eq_getElem _ _ hpre,
    (List.takeWhile_prefix _).getElem hpre]

/-- No character of a string is a `NUL`. -/
lemma cstr_ne_zero {s : Str} {x : UInt8} (h : x ∈ cstr s) : x ≠ 0 := by
  simpa using List.mem_takeWhile_imp h

/-- A text without a `NUL` is a string. -/
lemma cstr_eq_self {s : Str} (hs : 0 ∉ s) : cstr s = s :=
  List.takeWhile_eq_self_iff.2 fun x hx => by simpa using fun h0 : x = 0 => hs (h0 ▸ hx)

lemma cstr_drop {s : Str} {n : ℕ} (h : n ≤ strlen s) : cstr (s.drop n) = (cstr s).drop n := by
  induction n generalizing s with
  | zero => rfl
  | succ n ih =>
    cases s with
    | nil => exact absurd h (by simp [strlen])
    | cons x s =>
      by_cases h0 : x = 0
      · exact absurd h (by simp [strlen, h0])
      · have hs : cstr (x :: s) = x :: cstr s := by simp [cstr, h0]
        have hlen : strlen (x :: s) = strlen s + 1 := congrArg List.length hs
        rw [hs, List.drop_succ_cons, List.drop_succ_cons]
        exact ih (by omega)

/-! ### `strncmp` -/

/-- The bytes that `strncmp` compares, from an index on. -/
lemma cstr_take_drop (s : Str) (n i : ℕ) : cstr ((s.drop i).take (n + 1)) =
    if s.byteAt i = 0 then [] else s.byteAt i :: cstr ((s.drop (i + 1)).take n) := by
  by_cases hi : i < s.length
  · have hget : s.byteAt i = s[i] := List.getD_eq_getElem _ _ hi
    rw [List.drop_eq_getElem_cons hi, List.take_succ_cons, cstr, List.takeWhile_cons, hget]
    by_cases h0 : s[i] = 0
    · simp [h0]
    · simp [h0, cstr]
  · rw [Str.byteAt_of_ge (by omega), if_pos rfl, List.drop_eq_nil_of_le (by omega)]
    rfl

lemma toInt8_inj {a b : UInt8} : a.toInt8 = b.toInt8 ↔ a = b :=
  ⟨fun h => by simpa using congrArg Int8.toUInt8 h, fun h => h ▸ rfl⟩

lemma strncmpFrom_eq_zero (s1 s2 : Str) (n i : ℕ) : strncmpFrom s1 s2 n i = 0 ↔
    cstr ((s1.drop i).take n) = cstr ((s2.drop i).take n) := by
  induction n generalizing i with
  | zero => simp [strncmpFrom]
  | succ n ih =>
    rw [strncmpFrom, cstr_take_drop, cstr_take_drop]
    by_cases heq : s1.byteAt i = s2.byteAt i
    · rw [heq]
      by_cases h0 : s2.byteAt i = 0
      · simp [h0]
      · simp [h0, ih]
    · rw [if_pos (Or.inl heq), Int.sub_eq_zero, Int8.toInt_inj, toInt8_inj]
      constructor
      · exact fun h => absurd h heq
      · intro h
        exfalso
        by_cases h1 : s1.byteAt i = 0
        · have h2 : s2.byteAt i ≠ 0 := fun h2 => heq (h1.trans h2.symm)
          simp [h1, h2] at h
        · by_cases h2 : s2.byteAt i = 0
          · simp [h1, h2] at h
          · rw [if_neg h1, if_neg h2] at h
            exact heq (List.cons.inj h).1

/-- `strncmp` is zero for strings that agree over the bytes compared. -/
lemma strncmp_eq_zero (s1 s2 : Str) (n : ℕ) :
    strncmp s1 s2 n = 0 ↔ cstr (s1.take n) = cstr (s2.take n) := by
  rw [strncmp, strncmpFrom_eq_zero, List.drop_zero, List.drop_zero]

/-! ### `strncpy` -/

lemma strncpyZero_apply (n i j : ℕ) (dest : Buf) :
    strncpyZero n i dest j = if i ≤ j ∧ j < i + n then 0 else dest j := by
  induction n generalizing i dest with
  | zero => rw [strncpyZero, if_neg (by omega)]
  | succ n ih =>
    rw [strncpyZero, ih]
    by_cases hj : j = i
    · subst hj
      rw [if_neg (by omega), if_pos (by omega), Function.update_self]
    · rw [Function.update_of_ne hj]
      exact if_congr (by omega) rfl rfl

/-- `strncpy` stores exactly `n` bytes: those of the string up to its `NUL`, then `NUL`s. -/
lemma strncpyFrom_apply (src : Str) (n i j : ℕ) (dest : Buf) (hi : i ≤ strlen src) :
    strncpyFrom src n i dest j =
      if i ≤ j ∧ j < i + n then (if j < strlen src then src.byteAt j else 0) else dest j := by
  induction n generalizing i dest with
  | zero => rw [strncpyFrom, if_neg (by omega)]
  | succ n ih =>
    rw [strncpyFrom]
    by_cases h0 : src.byteAt i = 0
    · have hlen : i = strlen src := by
        by_contra hne
        exact byteAt_ne_zero_of_lt_strlen (by omega : i < strlen src) h0
      rw [if_neg (by simpa using h0), strncpyZero_apply]
      by_cases hj : i ≤ j ∧ j < i + (n + 1)
      · rw [if_pos hj, if_pos hj, if_neg (by omega)]
      · rw [if_neg hj, if_neg hj]
    · have hlt : i < strlen src := by
        by_contra hge
        have hi' : i = strlen src := by omega
        exact h0 (hi' ▸ byteAt_strlen src)
      rw [if_pos h0, ih _ _ hlt]
      by_cases hj : j = i
      · subst hj
        rw [if_neg (by omega), if_pos (by omega), if_pos hlt, Function.update_self]
      · rw [Function.update_of_ne hj]
        exact if_congr (by omega) rfl rfl

lemma strncpy_apply (dest : Buf) (src : Str) (n j : ℕ) :
    strncpy dest src n j =
      if j < n then (if j < strlen src then src.byteAt j else 0) else dest j := by
  rw [strncpy, strncpyFrom_apply src n 0 j dest (Nat.zero_le _)]
  exact if_congr (by omega) rfl rfl

/-! ### `memmove` -/

/-- Upwards, no byte is overwritten before it was read. -/
lemma movsbUp_apply {n dest src : ℕ} (mem : Buf) (h : dest ≤ src) (i : ℕ) :
    movsbUp n dest src mem i =
      if dest ≤ i ∧ i < dest + n then mem (src + (i - dest)) else mem i := by
  induction n generalizing dest src mem with
  | zero => rw [movsbUp, if_neg (by omega)]
  | succ n ih =>
    rw [movsbUp, ih _ (by omega)]
    by_cases hi : i = dest
    · subst hi
      rw [if_neg (by omega), if_pos (by omega), Function.update_self, Nat.sub_self, Nat.add_zero]
    · by_cases hin : dest ≤ i ∧ i < dest + (n + 1)
      · rw [if_pos (by omega), if_pos hin, Function.update_of_ne (by omega)]
        congr 1
        omega
      · rw [if_neg (by omega), if_neg hin, Function.update_of_ne hi]

lemma movsbDown_apply {n dest src : ℕ} (mem : Buf) (h : src ≤ dest) (i : ℕ) :
    movsbDown n dest src mem i =
      if dest ≤ i ∧ i < dest + n then mem (src + (i - dest)) else mem i := by
  induction n generalizing mem with
  | zero => rw [movsbDown, if_neg (by omega)]
  | succ n ih =>
    rw [movsbDown, ih]
    by_cases hi : i = dest + n
    · subst hi
      rw [if_neg (by omega), if_pos (by omega), Function.update_self]
      congr 1
      omega
    · by_cases hin : dest ≤ i ∧ i < dest + (n + 1)
      · rw [if_pos (by omega), if_pos hin, Function.update_of_ne (by omega)]
      · rw [if_neg (by omega), if_neg hin, Function.update_of_ne hi]

/-- `memmove` copies the bytes as they were, also where the two areas overlap. -/
lemma memmove_apply (dest src n : ℕ) (mem : Buf) (i : ℕ) :
    memmove dest src n mem i =
      if dest ≤ i ∧ i < dest + n then mem (src + (i - dest)) else mem i := by
  rw [memmove]
  split
  · rename_i hle
    exact movsbUp_apply mem hle i
  · rename_i hlt
    exact movsbDown_apply mem (by omega) i

/-! ### 32-bit words and their signed readings -/

lemma toNat_toUInt32_of_nonneg {n : Int32} (h : 0 ≤ n) : (n.toUInt32.toNat : ℤ) = n.toInt := by
  rw [Int32.toNat_toUInt32_of_le h, Int32.cast_toNatClampNeg n h]

/-- A word below `2 ^ 31` reads the same as a signed number. -/
lemma toInt_toInt32_of_lt {n : UInt32} (h : n.toNat < 2 ^ 31) : n.toInt32.toInt = n.toNat := by
  have h2 : 2 * n.toBitVec.toNat < 2 ^ 32 := by
    rw [UInt32.toNat_toBitVec]
    omega
  exact BitVec.toInt_eq_toNat_of_lt h2

lemma toNat_toInt_toInt32_of_lt {n : UInt32} (h : n.toNat < 2 ^ 31) :
    n.toInt32.toInt.toNat = n.toNat := by
  rw [toInt_toInt32_of_lt h, Int.toNat_natCast]

/-- Read as an `int`, a count is the same or negative. -/
lemma toNat_toInt_toInt32_le (n : UInt32) : n.toInt32.toInt.toNat ≤ n.toNat := by
  rcases Nat.lt_or_ge n.toNat (2 ^ 31) with h | h
  · exact (toNat_toInt_toInt32_of_lt h).le
  · have hneg : n.toInt32.toInt < 0 := by
      rw [Int32.toInt, BitVec.toInt_neg_iff, UInt32.toBitVec_toInt32, UInt32.toNat_toBitVec]
      omega
    omega

end WnajOS
