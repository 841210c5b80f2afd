import Mathlib.Data.Nat.Digits.Lemmas
import WnajOS.Arrays
import WnajOS.StatusClock

/-!
# `printf` (`lib.c`)

`printf` reads its format byte by byte and has `itoa` and `strrev` write the numbers into the
array `conv_buf`, from which `puts` prints them.  A format is a sequence of directives, and what
`printf` prints is the text of the directives, one after the other.  It ends at the first `NUL`
that does not stand behind a `%`: a `NUL` there is skipped as any unknown conversion.
-/

namespace WnajOS

/-! ### `strrev` and `itoa` -/

/-- The loop of `strrev`, on the string at `s`. -/
def strrevLoop (s beg last : ℕ) (buf : Buf) : Buf :=
  if beg < last then
    let tmp := buf (s + last)
    let buf := Function.update buf (s + last) (buf (s + beg))
    strrevLoop s (beg + 1) (last - 1) (Function.update buf (s + beg) tmp)
  else buf
termination_by last - beg

/-- `strrev`, on the string at `s` in an array of `size` bytes. -/
def strrev (size s : ℕ) (buf : Buf) : Buf := strrevLoop s 0 ((strAt buf size s).length - 1) buf

/-- The loop of `itoa`, with `n` digits left: `newbuf` and the array. -/
def itoaLoop (radix : ℕ) : (n newval newbuf : ℕ) → Buf → ℕ × Buf
  | 0, _, newbuf, buf => (newbuf, buf)
  | n + 1, newval, newbuf, buf =>
    if newval > 0 then
      itoaLoop radix n (newval / radix) (newbuf + 1)
        (Function.update buf newbuf (itoaLookup.getD (newval % radix) 0))
    else (newbuf, buf)

/-- `itoa`, to the offset `start` of an array of `size` bytes. -/
def itoaAt (size value start radix : ℕ) (buf : Buf) : Buf :=
  if value = 0 then Function.update (Function.update buf start 0x30) (start + 1) 0
  else
    let (newbuf, buf) := itoaLoop radix 32 value start buf
    strrev size start (Function.update buf newbuf 0)

/-! ### `printf` -/

/-- What `printf` finds in memory: the words behind its format, the bytes at an address, and what
`conv_buf` holds before it is written, by the bytes of the format that are left. -/
structure PrintfFrame where
  esp : ℕ → UInt32
  str : UInt32 → Str
  convBuf : ℕ → Buf

/-- The loop of `%#x`, which puts zeros before the digits. -/
def padLoop (i : ℕ) (convBuf : Buf) : Buf :=
  if i < 8 then padLoop (i + 1) (Function.update convBuf i 0x30) else convBuf
termination_by 8 - i

/-- What `%x` hands to `puts`. -/
def convX (alternate : Bool) (value : UInt32) (convBuf : Buf) : Str :=
  if alternate then
    let convBuf := itoaAt 64 value.toNat 8 16 convBuf
    let startingIndex := (strAt convBuf 64 8).length
    strAt (padLoop startingIndex convBuf) 64 startingIndex
  else strAt (itoaAt 64 value.toNat 0 16 convBuf) 64 0

/-- What `%u` hands to `puts`. -/
def convU (value : UInt32) (convBuf : Buf) : Str := strAt (itoaAt 36 value.toNat 0 10 convBuf) 36 0

/-- What `%d` hands to `puts`.  The negation of the least number is that number, which `itoa`
takes as an unsigned one. -/
def convD (value : Int32) (convBuf : Buf) : Str :=
  if value < 0 then
    strAt (itoaAt 36 (-value).toUInt32.toNat 1 10 (Function.update convBuf 0 0x2D)) 36 0
  else strAt (itoaAt 36 value.toUInt32.toNat 0 10 convBuf) 36 0

namespace Display

mutual

/-- The loop of `printf`, with the bytes `buf` of the format left: the difference of `buf` and
`format`, and the display. -/
def printfLoop (f : PrintfFrame) : Str → (n esp : ℕ) → Display → Except Display (ℕ × Display)
  | [], n, _, d => .ok (n, d)
  | c :: buf, n, esp, d =>
    if c = 0 then .ok (n, d)
    else if c = 0x25 then formatCharSwitch f false buf (n + 1) esp d
    else do printfLoop f buf (n + 1) esp (← putc c attrib d)

/-- From the label `format_char_switch` on. -/
def formatCharSwitch (f : PrintfFrame) :
    (alternate : Bool) → Str → (n esp : ℕ) → Display → Except Display (ℕ × Display)
  | _, [], n, _, d => .ok (n + 1, d)
  | alternate, c :: buf, n, esp, d =>
    let convBuf := f.convBuf buf.length
    if c = 0x25 then do printfLoop f buf (n + 1) esp (← putc 0x25 attrib d)
    else if c = 0x23 then formatCharSwitch f true buf (n + 1) esp d
    else if c = 0x78 then do
      printfLoop f buf (n + 1) (esp + 1) (← puts (convX alternate (f.esp esp) convBuf) d)
    else if c = 0x75 then do
      printfLoop f buf (n + 1) (esp + 1) (← puts (convU (f.esp esp) convBuf) d)
    else if c = 0x64 then do
      printfLoop f buf (n + 1) (esp + 1) (← puts (convD (f.esp esp).toInt32 convBuf) d)
    else if c = 0x63 then do
      printfLoop f buf (n + 1) (esp + 1) (← putc (f.esp esp).toUInt8 attrib d)
    else if c = 0x73 then do
      printfLoop f buf (n + 1) (esp + 1) (← puts (cstr (f.str (f.esp esp))) d)
    else printfLoop f buf (n + 1) esp d

end

/-- `printf`: the value it returns, and the display. -/
def printf (f : PrintfFrame) (format : Str) (d : Display) : Except Display (ℕ × Display) :=
  printfLoop f format 0 0 d

end Display

/-! ### Directives -/

/-- A number in a base. -/
def numeral (radix n : ℕ) : Str :=
  if n = 0 then [0x30] else ((Nat.digits radix n).map itoaLookup.byteAt).reverse

/-- A conversion, behind the `%` and the `#`s. -/
inductive Conversion
  | percent
  | hex
  | unsigned
  | signed
  | char
  | string
  | other (c : UInt8) (h : c ∉ [0x25, 0x23, 0x78, 0x75, 0x64, 0x63, 0x73])

/-- The byte of a conversion. -/
def Conversion.byte : Conversion → UInt8
  | percent => 0x25
  | hex => 0x78
  | unsigned => 0x75
  | signed => 0x64
  | char => 0x63
  | string => 0x73
  | other c _ => c

/-- The words that a conversion takes. -/
def Conversion.words : Conversion → ℕ
  | percent | other .. => 0
  | hex | unsigned | signed | char | string => 1

/-- The text of a conversion of a word. -/
def Conversion.text (str : UInt32 → Str) (alternate : Bool) (w : UInt32) : Conversion → Str
  | percent => [0x25]
  | hex =>
    let digits := numeral 16 w.toNat
    if alternate then List.replicate (8 - digits.length) 0x30 ++ digits else digits
  | unsigned => numeral 10 w.toNat
  | signed =>
    if w.toInt32 < 0 then 0x2D :: numeral 10 w.toInt32.toInt.natAbs
    else numeral 10 w.toInt32.toInt.natAbs
  | char => [w.toUInt8]
  | string => cstr (str w)
  | other .. => []

/-- A directive of a format. -/
inductive Directive
  | literal (c : UInt8) (h0 : c ≠ 0) (h : c ≠ 0x25)
  | conversion (hashes : ℕ) (k : Conversion)

namespace Directive

/-- The bytes of a directive. -/
def bytes : Directive → Str
  | literal c _ _ => [c]
  | conversion hashes k => 0x25 :: (List.replicate hashes 0x23 ++ [k.byte])

/-- The words that a directive takes. -/
def words : Directive → ℕ
  | literal .. => 0
  | conversion _ k => k.words

/-- The text of a directive. -/
def text (str : UInt32 → Str) (w : UInt32) : Directive → Str
  | literal c _ _ => [c]
  | conversion hashes k => k.text str (hashes ≠ 0) w

/-- The bytes of a format. -/
def encode (ps : List Directive) : Str := ps.flatMap bytes

/-- The text of a format, whose words are those from `esp` on. -/
def render (f : PrintfFrame) : List Directive → (esp : ℕ) → Str
  | [], _ => []
  | p :: ps, esp => p.text f.str (f.esp esp) ++ render f ps (esp + p.words)

/-- Every byte but `#` is that of a conversion. -/
lemma exists_conversion {c : UInt8} (h : c ≠ 0x23) : ∃ k : Conversion, k.byte = c := by
  by_cases hother : c ∈ [0x25, 0x23, 0x78, 0x75, 0x64, 0x63, 0x73]
  · simp only [List.mem_cons, List.not_mem_nil, or_false] at hother
    rcases hother with rfl | rfl | rfl | rfl | rfl | rfl | rfl
    · exact ⟨.percent, rfl⟩
    · exact absurd rfl h
    · exact ⟨.hex, rfl⟩
    · exact ⟨.unsigned, rfl⟩
    · exact ⟨.signed, rfl⟩
    · exact ⟨.char, rfl⟩
    · exact ⟨.string, rfl⟩
  · exact ⟨.other c hother, rfl⟩

/-- The `#`s at the head of a text. -/
lemma exists_hashes (s : Str) : ∃ hashes rest, s = List.replicate hashes 0x23 ++ rest ∧
    ∀ c ∈ rest.head?, c ≠ 0x23 := by
  induction s with
  | nil => exact ⟨0, [], rfl, by simp⟩
  | cons c s ih =>
    by_cases hc : c = 0x23
    · obtain ⟨hashes, rest, rfl, hhead⟩ := ih
      exact ⟨hashes + 1, rest, by rw [hc]; rfl, hhead⟩
    · exact ⟨0, c :: s, rfl, by simpa using hc⟩

/-- Every text is the bytes of a format, a `NUL` and a rest, when two `NUL`s follow it. -/
lemma exists_encode (s : Str) : ∃ ps buf, s ++ [0, 0] = encode ps ++ 0 :: buf := by
  induction hn : s.length using Nat.strong_induction_on generalizing s with
  | _ n ih =>
    subst hn
    rcases s with - | ⟨c, s⟩
    · exact ⟨[], [0], rfl⟩
    by_cases h0 : c = 0
    · exact ⟨[], s ++ [0, 0], by rw [h0]; rfl⟩
    by_cases h : c = 0x25
    · obtain ⟨hashes, rest, rfl, hhead⟩ := exists_hashes s
      rcases rest with - | ⟨c', rest⟩
      · -- the first `NUL` stands behind the `%`
        refine ⟨[.conversion hashes (.other 0 (by decide))], [], ?_⟩
        simp [encode, bytes, Conversion.byte, h]
      · obtain ⟨k, rfl⟩ := exists_conversion (hhead c' rfl)
        obtain ⟨ps, buf, hps⟩ := ih rest.length (by simp; omega) rest rfl
        refine ⟨.conversion hashes k :: ps, buf, ?_⟩
        rw [encode, List.flatMap_cons, ← encode, List.append_assoc, ← hps]
        simp [bytes, h]
    · obtain ⟨ps, buf, hps⟩ := ih s.length (by simp) s rfl
      refine ⟨.literal c h0 h :: ps, buf, ?_⟩
      rw [encode, List.flatMap_cons, ← encode, List.append_assoc, ← hps]
      rfl

end Directive

/-! ### The digits of a number -/

/-- The loop of `itoa` goes through the digits. -/
lemma itoaFrom_eq {radix : ℕ} (hradix : 1 < radix) {n value : ℕ} (h : value < radix ^ n) :
    itoaFrom radix n value = (Nat.digits radix value).map itoaLookup.byteAt := by
  induction n generalizing value with
  | zero =>
    obtain rfl : value = 0 := Nat.lt_one_iff.1 h
    rw [Nat.digits_zero]
    rfl
  | succ n ih =>
    rw [itoaFrom]
    rcases Nat.eq_zero_or_pos value with rfl | hpos
    · rw [Nat.digits_zero]
      rfl
    · have hdiv : value / radix < radix ^ n := Nat.div_lt_of_lt_mul (by rwa [← Nat.pow_succ'])
      rw [if_pos hpos, ih hdiv, Nat.digits_def' hradix hpos, List.map_cons]
      rfl

/-- No digit is a `NUL`. -/
lemma itoaLookup_ne_zero (i : Fin 36) : itoaLookup.byteAt i ≠ 0 := by
  revert i
  decide

lemma numeral_ne_zero {radix : ℕ} (n : ℕ) (hradix : 1 < radix) (hle : radix ≤ 36) :
    0 ∉ numeral radix n := by
  rw [numeral]
  split
  · simp
  · intro h
    obtain ⟨i, hi, h0⟩ := List.mem_map.1 (List.mem_reverse.1 h)
    exact itoaLookup_ne_zero ⟨i, (Nat.digits_lt_base hradix hi).trans_le hle⟩ h0

/-- A number has at most as many digits as the power of the base above it. -/
lemma numeral_length_le {radix n k : ℕ} (hradix : 1 < radix) (hk : 0 < k) (h : n < radix ^ k) :
    (numeral radix n).length ≤ k := by
  rw [numeral]
  split
  · exact hk
  · rw [List.length_reverse, List.length_map]
    exact (Nat.digits_length_le_iff hradix n).2 h

/-! ### Turning a string around -/

/-- The loop of `strrev` turns the bytes between `beg` and `last` around. -/
lemma strrevLoop_apply (s beg last : ℕ) (buf : Buf) (i : ℕ) : strrevLoop s beg last buf i =
    if s + beg ≤ i ∧ i ≤ s + last then buf (2 * s + beg + last - i) else buf i := by
  fun_induction strrevLoop s beg last buf with
  | case1 beg last buf hlt tmp buf' ih =>
    rw [ih]
    simp only [buf', tmp, Function.update_apply]
    grind
  | case2 beg last buf hle =>
    split
    · refine congrArg buf ?_
      omega
    · rfl

/-- `strrev` turns its string around and leaves the rest of the array. -/
lemma strrev_spec (size : ℕ) {s : ℕ} {buf : Buf} {cs : Str} (h : HoldsAt buf s cs) (hcs : 0 ∉ cs)
    (hend : buf (s + cs.length) = 0) (hsize : s + cs.length < size) :
    HoldsAt (strrev size s buf) s cs.reverse ∧
      ∀ i, i < s ∨ s + cs.length ≤ i → strrev size s buf i = buf i := by
  rw [strrev, strAt_of_holdsAt h hcs hend hsize]
  constructor
  · intro j hj
    rw [List.length_reverse] at hj
    rw [strrevLoop_apply, if_pos (by omega), Str.byteAt,
      List.getD_eq_getElem _ _ (by rwa [List.length_reverse]), List.getElem_reverse,
      ← List.getD_eq_getElem _ 0 (by omega)]
    have hat := h (cs.length - 1 - j) (by omega)
    rw [Str.byteAt] at hat
    rw [← hat]
    refine congrArg buf ?_
    omega
  · intro i hi
    rw [strrevLoop_apply]
    split
    · -- only an empty string has such a byte, which stays where it is
      refine congrArg buf ?_
      omega
    · rfl

/-- The loop of `itoa` writes its digits one behind the other. -/
lemma itoaLoop_spec (radix n value start : ℕ) (buf : Buf) :
    let ds := itoaFrom radix n value
    let r := itoaLoop radix n value start buf
    r.1 = start + ds.length ∧ HoldsAt r.2 start ds ∧ ∀ i < start, r.2 i = buf i := by
  induction n generalizing value start buf with
  | zero => exact ⟨rfl, fun j hj => absurd hj (Nat.not_lt_zero j), fun _ _ => rfl⟩
  | succ n ih =>
    rw [itoaFrom, itoaLoop]
    by_cases hpos : value > 0
    · obtain ⟨hlen, hdigits, hbelow⟩ := ih (value / radix) (start + 1)
        (Function.update buf start (itoaLookup.getD (value % radix) 0))
      simp only [if_pos hpos, List.length_cons, holdsAt_cons]
      refine ⟨by rw [hlen]; omega, ⟨?_, hdigits⟩, fun i hi => ?_⟩
      · rw [hbelow start (Nat.lt_succ_self _), Function.update_self]
      · rw [hbelow i (by omega), Function.update_of_ne (by omega)]
    · rw [if_neg hpos, if_neg hpos]
      exact ⟨rfl, fun j hj => absurd hj (Nat.not_lt_zero j), fun _ _ => rfl⟩

/-- `itoa` leaves the number and a `NUL` in the array, and what is before it. -/
lemma itoaAt_spec (size start : ℕ) {value radix : ℕ} (hradix : 1 < radix) (hle : radix ≤ 36)
    (hvalue : value < 2 ^ 32) (hsize : start + 32 < size) (buf : Buf) :
    let r := itoaAt size value start radix buf
    HoldsAt r start (numeral radix value) ∧ r (start + (numeral radix value).length) = 0 ∧
      ∀ i < start, r i = buf i := by
  have hpow : value < radix ^ 32 := hvalue.trans_le (Nat.pow_le_pow_left hradix 32)
  have hlength := numeral_length_le hradix (by norm_num) hpow
  have hnul := numeral_ne_zero value hradix hle
  rw [itoaAt, numeral] at *
  by_cases h0 : value = 0
  · simp only [if_pos h0, List.length_singleton, Function.update_self, holdsAt_cons]
    refine ⟨⟨?_, fun j hj => absurd hj (Nat.not_lt_zero j)⟩, trivial, fun i hi => ?_⟩
    · rw [Function.update_of_ne (by omega), Function.update_self]
    · rw [Function.update_of_ne (by omega), Function.update_of_ne (by omega)]
  · simp only [if_neg h0] at hlength hnul ⊢
    rw [List.length_reverse] at hlength ⊢
    rw [List.mem_reverse] at hnul
    rw [← itoaFrom_eq hradix hpow] at hlength hnul ⊢
    obtain ⟨hnew, hdigits, hbelow⟩ := itoaLoop_spec radix 32 value start buf
    rw [hnew]
    obtain ⟨hrev, hrest⟩ := strrev_spec size (hdigits.update (Or.inr le_rfl) 0) hnul
      (Function.update_self ..) (by omega)
    refine ⟨hrev, ?_, fun i hi => ?_⟩
    · rw [hrest _ (Or.inr le_rfl), Function.update_self]
    · rw [hrest i (Or.inl hi), Function.update_of_ne (by omega), hbelow i hi]

/-- The number at its place in the array, as `puts` prints it. -/
lemma strAt_itoaAt {size value start radix : ℕ} (hradix : 1 < radix) (hle : radix ≤ 36)
    (hvalue : value < 2 ^ 32) (hsize : start + 32 < size) (buf : Buf) :
    strAt (itoaAt size value start radix buf) size start = numeral radix value := by
  obtain ⟨hdigits, hend, -⟩ := itoaAt_spec size start hradix hle hvalue hsize buf
  have hlength := numeral_length_le hradix (k := 32) (by norm_num)
    (hvalue.trans_le (Nat.pow_le_pow_left hradix 32))
  exact strAt_of_holdsAt hdigits (numeral_ne_zero value hradix hle) hend (by omega)

/-! ### The conversions -/

/-- The zeros in front of a number. -/
lemma padLoop_apply (i : ℕ) (convBuf : Buf) (j : ℕ) :
    padLoop i convBuf j = if i ≤ j ∧ j < 8 then 0x30 else convBuf j := by
  fun_induction padLoop i convBuf with
  | case1 i convBuf hlt ih =>
    rw [ih, Function.update_apply]
    grind
  | case2 i convBuf hle => rw [if_neg (by omega)]

lemma convX_eq (str : UInt32 → Str) (alternate : Bool) (value : UInt32) (convBuf : Buf) :
    convX alternate value convBuf = Conversion.hex.text str alternate value := by
  have hvalue : value.toNat < 2 ^ 32 := value.toNat_lt
  rw [convX, Conversion.text]
  cases alternate with
  | false => exact strAt_itoaAt (by norm_num) (by norm_num) hvalue (by norm_num) _
  | true =>
    have hradix : 1 < 16 := by norm_num
    obtain ⟨hdigits, hend, -⟩ :=
      itoaAt_spec 64 8 hradix (by norm_num) hvalue (by norm_num) convBuf
    have hlength : (numeral 16 value.toNat).length ≤ 8 :=
      numeral_length_le (by norm_num) (by norm_num) (hvalue.trans_le (by norm_num))
    simp only [if_true]
    rw [strAt_itoaAt (by norm_num) (by norm_num) hvalue (by norm_num)]
    generalize hds : numeral 16 value.toNat = ds at *
    -- the zeros stand before the eighth byte, where the digits begin
    have hzeros : ds.length + (List.replicate (8 - ds.length) (0x30 : UInt8)).length = 8 := by
      rw [List.length_replicate]
      omega
    refine strAt_of_holdsAt (holdsAt_append.2 ⟨fun j hj => ?_, ?_⟩) ?_ ?_ ?_
    · rw [List.length_replicate] at hj
      rw [padLoop_apply, if_pos (by omega), Str.byteAt, List.getD_replicate _ hj]
    · rw [hzeros]
      refine hdigits.congr fun j _ => ?_
      rw [padLoop_apply, if_neg (by omega)]
    · have hnul := numeral_ne_zero value.toNat hradix (by norm_num)
      rw [hds] at hnul
      simp [hnul]
    · rw [List.length_append, ← Nat.add_assoc, hzeros, padLoop_apply, if_neg (by omega), hend]
    · rw [List.length_append, ← Nat.add_assoc, hzeros]
      omega

lemma convU_eq (value : UInt32) (convBuf : Buf) : convU value convBuf = numeral 10 value.toNat :=
  strAt_itoaAt (by norm_num) (by norm_num) value.toNat_lt (by norm_num) _

/-- The number that `itoa` gets for a negative one. -/
lemma toNat_neg_of_neg {value : Int32} (h : value < 0) :
    (-value).toUInt32.toNat = value.toInt.natAbs := by
  have hnat : (-value).toUInt32.toNat = (-value.toBitVec).toNat := rfl
  have hint : value.toInt = value.toBitVec.toInt := rfl
  have hneg : value.toBitVec.toInt < 0 := Int32.lt_iff_toInt_lt.1 h
  have hcond := BitVec.toInt_eq_toNat_cond value.toBitVec
  have hlt := value.toBitVec.isLt
  rw [hnat, hint, BitVec.toNat_neg]
  split at hcond <;> omega

lemma toNat_of_nonneg {value : Int32} (h : ¬value < 0) :
    value.toUInt32.toNat = value.toInt.natAbs := by
  have hnat : value.toUInt32.toNat = value.toBitVec.toNat := rfl
  have hint : value.toInt = value.toBitVec.toInt := rfl
  have hnonneg : ¬value.toBitVec.toInt < 0 := fun hlt => h (Int32.lt_iff_toInt_lt.2 hlt)
  have hcond := BitVec.toInt_eq_toNat_cond value.toBitVec
  have hlt := value.toBitVec.isLt
  rw [hnat, hint]
  split at hcond <;> omega

lemma convD_eq (str : UInt32 → Str) (alternate : Bool) (w : UInt32) (convBuf : Buf) :
    convD w.toInt32 convBuf = Conversion.signed.text str alternate w := by
  rw [convD, Conversion.text]
  by_cases hneg : w.toInt32 < 0
  · rw [if_pos hneg, if_pos hneg]
    have hradix : 1 < 10 := by norm_num
    obtain ⟨hdigits, hend, hbelow⟩ := itoaAt_spec 36 1 hradix (by norm_num)
      (-w.toInt32).toUInt32.toNat_lt (by norm_num) (Function.update convBuf 0 0x2D)
    have hnul := numeral_ne_zero (-w.toInt32).toUInt32.toNat hradix (by norm_num)
    have hlength : (numeral 10 (-w.toInt32).toUInt32.toNat).length ≤ 32 :=
      numeral_length_le (by norm_num) (by norm_num)
        ((-w.toInt32).toUInt32.toNat_lt.trans_le (by norm_num))
    rw [toNat_neg_of_neg hneg] at *
    refine strAt_of_holdsAt (holdsAt_cons.2 ⟨?_, ?_⟩) ?_ ?_ ?_
    · rw [hbelow 0 Nat.zero_lt_one, Function.update_self]
    · rwa [Nat.zero_add]
    · simpa using hnul
    · rwa [List.length_cons, Nat.zero_add, Nat.add_comm]
    · rw [List.length_cons]
      omega
  · rw [if_neg hneg, if_neg hneg, ← toNat_of_nonneg hneg]
    exact strAt_itoaAt (by norm_num) (by norm_num) (UInt32.toNat_lt _) (by norm_num) _

namespace Display

/-! ### The runs of `printf` -/

lemma puts_singleton (c : UInt8) (d : Display) : puts [c] d = putc c attrib d := by
  rw [puts]
  exact bind_pure _

lemma puts_append (cs cs' : Str) (d : Display) : puts (cs ++ cs') d = puts cs d >>= puts cs' := by
  induction cs generalizing d with
  | nil => rfl
  | cons c cs ih =>
    rw [List.cons_append, puts, puts, bind_assoc]
    exact bind_congr ih

variable (f : PrintfFrame)

/-- The `#`s of a conversion. -/
lemma formatCharSwitch_hashes (alternate : Bool) (hashes : ℕ) (buf : Str) (n esp : ℕ)
    (d : Display) :
    formatCharSwitch f alternate (List.replicate hashes 0x23 ++ buf) n esp d =
      formatCharSwitch f (alternate || hashes ≠ 0) buf (n + hashes) esp d := by
  induction hashes generalizing alternate n with
  | zero => simp
  | succ hashes ih =>
    rw [List.replicate_succ, List.cons_append, formatCharSwitch, if_neg (by decide),
      if_pos rfl, ih]
    simp [Nat.add_assoc, Nat.add_comm 1]

/-- A conversion prints its text. -/
lemma formatCharSwitch_byte (alternate : Bool) (k : Conversion) (buf : Str) (n esp : ℕ)
    (d : Display) :
    formatCharSwitch f alternate (k.byte :: buf) n esp d =
      puts (k.text f.str alternate (f.esp esp)) d >>= printfLoop f buf (n + 1) (esp + k.words) := by
  rw [formatCharSwitch]
  cases k with
  | percent => exact (puts_singleton ..).symm ▸ rfl
  | hex =>
    rw [← convX_eq f.str alternate (f.esp esp) (f.convBuf buf.length)]
    rfl
  | unsigned =>
    rw [Conversion.text, ← convU_eq (f.esp esp) (f.convBuf buf.length)]
    rfl
  | signed =>
    rw [← convD_eq f.str alternate (f.esp esp) (f.convBuf buf.length)]
    rfl
  | char => exact (puts_singleton ..).symm ▸ rfl
  | string => rfl
  | other c h =>
    simp only [List.mem_cons, List.not_mem_nil, or_false, not_or] at h
    obtain ⟨h1, h2, h3, h4, h5, h6, h7⟩ := h
    rw [Conversion.byte, if_neg h1, if_neg h2, if_neg h3, if_neg h4, if_neg h5, if_neg h6,
      if_neg h7]
    rfl

/-- A directive prints its text. -/
lemma printfLoop_bytes (p : Directive) (buf : Str) (n esp : ℕ) (d : Display) :
    printfLoop f (p.bytes ++ buf) n esp d =
      puts (p.text f.str (f.esp esp)) d >>=
        printfLoop f buf (n + p.bytes.length) (esp + p.words) := by
  cases p with
  | literal c h0 h =>
    rw [Directive.bytes, List.singleton_append, printfLoop, if_neg h0, if_neg h, Directive.text,
      puts_singleton]
    rfl
  | conversion hashes k =>
    rw [Directive.bytes, List.cons_append, printfLoop, if_neg (by decide), if_pos rfl,
      List.append_assoc, formatCharSwitch_hashes, List.singleton_append, formatCharSwitch_byte,
      Bool.false_or]
    simp only [Directive.text, Directive.words, List.length_cons, List.length_append,
      List.length_replicate, List.length_nil]
    refine bind_congr fun d => ?_
    congr 1
    omega

/-- The directives print their texts one after the other. -/
lemma printfLoop_encode (ps : List Directive) (buf : Str) (n esp : ℕ) (d : Display) :
    printfLoop f (Directive.encode ps ++ 0 :: buf) n esp d =
      (puts (Directive.render f ps esp) d).map fun d => (n + (Directive.encode ps).length, d) := by
  induction ps generalizing n esp d with
  | nil => rfl
  | cons p ps ih =>
    rw [Directive.encode, List.flatMap_cons, ← Directive.encode, List.append_assoc,
      printfLoop_bytes, Directive.render, puts_append]
    rw [List.length_append]
    cases hputs : puts (p.text f.str (f.esp esp)) d with
    | error d' => rfl
    | ok d' =>
      change printfLoop f _ _ _ d' = (puts _ d').map _
      rw [ih, Nat.add_assoc]

/-- **`printf` prints the text of its format**, up to the first `NUL` that is not behind a `%`,
and returns the length of the format. -/
theorem printf_prints (f : PrintfFrame) (ps : List Directive) (buf : Str) (d : Display) :
    printf f (Directive.encode ps ++ 0 :: buf) d =
      (puts (Directive.render f ps 0) d).map fun d => ((Directive.encode ps).length, d) := by
  rw [printf, printfLoop_encode, Nat.zero_add]

/-- A `%` at the end of a format hides its `NUL`. -/
example (f : PrintfFrame) (d : Display) : printf f [0x25, 0, 0x61, 0x62, 0] d =
    (puts [0x61, 0x62] d).map fun d => (4, d) :=
  printfLoop_encode f [.conversion 0 (.other 0 (by decide)), .literal 0x61 (by decide) (by decide),
    .literal 0x62 (by decide) (by decide)] [] 0 0 d

end Display

end WnajOS
