import WnajOS.Arrays
import WnajOS.Userland.Session

/-!
# How programs are proved

The functions of `ece391support.c` that make calls, and the rules for calls on the program's own
state.  What a program does there it does among the others as well.
-/

namespace WnajOS

namespace Userland

open Programs

/-- A program that makes system calls. -/
abbrev UserProgram := Program Syscall Reply

/-- A call of which only the value is used. -/
def returned (c : Syscall) : UserProgram Int32 := do
  let (ret, _) ← Program.ask c
  return ret

/-- `ece391_fdputs`.  (`ece391_strlen` is `strlen`.) -/
def fdputs (fd : Int32) (s : Str) : UserProgram Unit := do
  let _ ← returned (.write fd s.byteAt (Int32.ofNat (strlen s)))
  return ()

/-- The loop of `ece391_strncmp`, with `n` comparisons left, at index `i`. -/
def strncmpLoop (s1 s2 : Buf) : (n i : ℕ) → ℤ
  | 0, _ => 0
  | n + 1, i =>
    if s1 i = s2 i then
      if s1 i = 0 ∨ n = 0 then 0 else strncmpLoop s1 s2 n (i + 1)
    else (s1 i).toNat - (s2 i).toNat

/-- `ece391_strncmp`.  Bytes are unsigned here. -/
def ece391Strncmp (s1 s2 : Buf) (n : ℕ) : ℤ := strncmpLoop s1 s2 n 0

/-- `ece391_strcpy` within an array, with `n` bytes of the array left at the source. -/
def ece391Strcpy : (n dst src : ℕ) → Buf → Buf
  | 0, _, _, mem => mem
  | n + 1, dst, src, mem =>
    let c := mem src
    let mem := Function.update mem dst c
    if c ≠ 0 then ece391Strcpy n (dst + 1) (src + 1) mem else mem

/-! ### Texts in arrays -/

section Arrays

variable {data : Buf} {cs : Str}

lemma strncmpLoop_eq_zero {s1 s2 : Buf} {n i : ℕ} (h : ∀ j < n, s2 (i + j) ≠ 0) :
    strncmpLoop s1 s2 n i = 0 ↔ ∀ j < n, s1 (i + j) = s2 (i + j) := by
  induction n generalizing i with
  | zero => exact ⟨fun _ j hj => absurd hj (Nat.not_lt_zero j), fun _ => rfl⟩
  | succ n ih =>
    have h0 : s2 i ≠ 0 := h 0 (Nat.succ_pos n)
    have htail (j : ℕ) (hj : j < n) : s2 (i + 1 + j) ≠ 0 := by
      rw [Nat.add_right_comm]
      exact h (j + 1) (Nat.succ_lt_succ hj)
    have hall : (∀ j < n + 1, s1 (i + j) = s2 (i + j)) ↔
        s1 i = s2 i ∧ ∀ j < n, s1 (i + 1 + j) = s2 (i + 1 + j) := by
      constructor
      · intro h'
        refine ⟨h' 0 (Nat.succ_pos n), fun j hj => ?_⟩
        rw [Nat.add_right_comm]
        exact h' (j + 1) (Nat.succ_lt_succ hj)
      · rintro ⟨hi, h'⟩ j hj
        cases j with
        | zero => exact hi
        | succ j =>
          have hj' := h' j (Nat.lt_of_succ_lt_succ hj)
          rw [Nat.add_right_comm] at hj'
          exact hj'
    rw [strncmpLoop, hall]
    by_cases heq : s1 i = s2 i
    · rw [if_pos heq]
      by_cases hn : n = 0
      · subst hn
        rw [if_pos (Or.inr rfl)]
        exact ⟨fun _ => ⟨heq, fun j hj => absurd hj (Nat.not_lt_zero j)⟩, fun _ => rfl⟩
      · rw [if_neg (not_or.2 ⟨heq ▸ h0, hn⟩), ih htail]
        exact ⟨fun h' => ⟨heq, h'⟩, And.right⟩
    · rw [if_neg heq]
      refine iff_of_false (fun hdiff => heq ?_) fun h' => heq h'.1
      exact UInt8.toNat_inj.1 (by omega)

/-- `ece391_strncmp` with the whole of a string. -/
lemma ece391Strncmp_eq_zero {s1 : Buf} {s : Str} (hs : 0 ∉ s) :
    ece391Strncmp s1 s.byteAt s.length = 0 ↔ HoldsAt s1 0 s := by
  have hne (j : ℕ) (hj : j < s.length) : s.byteAt (0 + j) ≠ 0 := by
    rw [Nat.zero_add]
    exact fun h0 => hs (h0 ▸ byteAt_mem hj)
  rw [ece391Strncmp, strncmpLoop_eq_zero hne]
  refine forall₂_congr fun j _ => ?_
  rw [Nat.zero_add]

/-- **`ece391_strcpy` towards the front** of an array moves a string with its `NUL`, also onto
itself. -/
lemma ece391Strcpy_spec {n dst src : ℕ} (h : HoldsAt data src cs) (hcs : 0 ∉ cs)
    (hend : data (src + cs.length) = 0) (hlt : dst < src) (hn : cs.length < n) :
    HoldsAt (ece391Strcpy n dst src data) dst (cs ++ [0]) ∧
      ∀ k, k < dst ∨ dst + cs.length < k → ece391Strcpy n dst src data k = data k := by
  induction cs generalizing n dst src data with
  | nil =>
    obtain ⟨n, rfl⟩ : ∃ m, n = m + 1 := ⟨n - 1, by rw [List.length_nil] at hn; omega⟩
    have hc : data src = 0 := hend
    rw [ece391Strcpy, hc, if_neg (not_not.2 rfl)]
    refine ⟨holdsAt_cons.2 ⟨Function.update_self .., fun j hj => ?_⟩, fun k hk => ?_⟩
    · exact absurd hj (Nat.not_lt_zero j)
    · rw [List.length_nil] at hk
      exact Function.update_of_ne (by omega) ..
  | cons x cs ih =>
    obtain ⟨n, rfl⟩ : ∃ m, n = m + 1 := ⟨n - 1, by rw [List.length_cons] at hn; omega⟩
    obtain ⟨hx, hcs'⟩ := holdsAt_cons.1 h
    rw [List.mem_cons, not_or] at hcs
    rw [List.length_cons] at hn hend
    have hnext : Function.update data dst x (src + 1 + cs.length) = 0 := by
      rw [Function.update_of_ne (by omega), Nat.add_assoc, Nat.add_comm 1]
      exact hend
    obtain ⟨hholds, hrest⟩ := ih (hcs'.update (Or.inl (by omega)) x) hcs.2 hnext
      (show dst + 1 < src + 1 by omega) (show cs.length < n by omega)
    rw [ece391Strcpy, hx, if_pos (Ne.symm hcs.1)]
    refine ⟨holdsAt_cons.2 ⟨?_, hholds⟩, fun k hk => ?_⟩
    · rw [hrest dst (Or.inl (Nat.lt_succ_self _)), Function.update_self]
    · rw [List.length_cons] at hk
      rw [hrest k (by omega), Function.update_of_ne (by omega)]

end Arrays

/-! ### Rules -/

/-- On its own state the program ends, with the property. -/
abbrev Does {α : Type} (img : Image) (p : UserProgram α) (Q : α → Own → Prop) (o : Own) : Prop :=
  Program.wp (Own.serve img) Eq p Q o

section Rules

variable {α : Type} {img : Image} {o o' : Own}

lemma does_ask {c : Syscall} {r : Reply} {Q : Reply → Own → Prop}
    (h : o.serve img c = some (r, o')) (hQ : Q r o') : Does img (Program.ask c) Q o := by
  rintro _ rfl
  exact ⟨r, o', h, hQ⟩

lemma does_returned {c : Syscall} {r : Reply} {Q : Int32 → Own → Prop}
    (h : o.serve img c = some (r, o')) (hQ : Q r.1 o') : Does img (returned c) Q o :=
  Program.wp_bind (does_ask h hQ)

/-- **Among others a program does what it does on its own state.** -/
theorem Does.run {p : UserProgram α} {Q : α → Own → Prop} (h : Does img p Q o) {s : Session}
    (hs : Owns s o) {work : ℕ → Session → Session} (hwork : ∀ i s, Undisturbed s (work i s)) :
    ∃ a t, Program.run (Session.serve img) p work s = some (a, t) ∧ ∃ o', Owns t o' ∧ Q a o' :=
  Program.wp_run ((serve_simulates img).wp hs h) hwork

/-- Descriptor 1 is open, with the terminal behind it. -/
structure Own.Stdout (o : Own) : Prop where
  ops : (o.fds 1).fileOps = some .stdout
  flags : (o.fds 1).flags ≠ 0

/-- The state after a text was printed. -/
def Own.print (o : Own) (cs : Str) : Own := { o with printed := o.printed ++ cs }

lemma Own.Stdout.print (h : o.Stdout) (cs : Str) : (o.print cs).Stdout := ⟨h.ops, h.flags⟩

/-- Another array, with the same descriptor 1. -/
lemma Own.Stdout.congr (h : o.Stdout) (h1 : o'.fds 1 = o.fds 1) : o'.Stdout :=
  ⟨h1 ▸ h.ops, h1 ▸ h.flags⟩

lemma serve_print (img : Image) (buf : Buf) {nbytes : Int32} (h : o.Stdout) (hn : 0 ≤ nbytes)
    (h8 : 8 ∉ (List.range nbytes.toInt.toNat).map buf) :
    o.serve img (.write 1 buf nbytes) =
      some ((nbytes, buf), o.print ((List.range nbytes.toInt.toNat).map buf)) := by
  have hok : ¬o.Refused 1 nbytes := by
    rintro (hlt | hge | hneg | hflags)
    · exact absurd hlt (by decide)
    · exact absurd hge (by decide)
    · exact Int32.not_lt.2 hn hneg
    · exact h.flags hflags
  rw [Own.serve, if_neg hok, Own.writeTo]
  rw [show fdIndex 1 = 1 from rfl, h.ops]
  dsimp only
  rw [if_neg h8]
  rfl

lemma take_strlen (s : Str) : s.take (strlen s) = cstr s := by
  rw [strlen, cstr]
  exact (List.prefix_iff_eq_take.1 (List.takeWhile_prefix _)).symm

lemma toInt_ofNat {n : ℕ} (h : n < 2 ^ 31) : (Int32.ofNat n).toInt = n :=
  Int32.toInt_ofNat_of_lt h

lemma ofNat_ne_neg_one {n : ℕ} (h : n < 2 ^ 31) : Int32.ofNat n ≠ -1 := by
  intro heq
  have hint := toInt_ofNat h
  rw [heq, show (-1 : Int32).toInt = -1 from rfl] at hint
  omega

lemma eq_zero_of_ofNat {n : ℕ} (h : n < 2 ^ 31) (h0 : Int32.ofNat n = 0) : n = 0 := by
  have hint := toInt_ofNat h
  rw [h0, Int32.toInt_zero] at hint
  omega

/-- `ece391_fdputs` prints the string. -/
lemma does_fdputs {s : Str} {Q : Unit → Own → Prop} (h : o.Stdout) (hlen : s.length < 2 ^ 31)
    (h8 : 8 ∉ cstr s) (hQ : Q () (o.print (cstr s))) : Does img (fdputs 1 s) Q o := by
  have hle := strlen_le_length s
  have hint : (Int32.ofNat (strlen s)).toInt.toNat = strlen s := by
    rw [toInt_ofNat (by omega), Int.toNat_natCast]
  have hbytes : (List.range (Int32.ofNat (strlen s)).toInt.toNat).map s.byteAt = cstr s := by
    rw [hint, range_map_byteAt _ hle, take_strlen]
  have hnonneg : 0 ≤ Int32.ofNat (strlen s) := by
    rw [Int32.le_iff_toInt_le, toInt_ofNat (by omega)]
    exact Int.natCast_nonneg _
  have hserve := serve_print img s.byteAt h hnonneg (by rw [hbytes]; exact h8)
  rw [hbytes] at hserve
  exact Program.wp_bind (does_returned hserve hQ)

end Rules

end Userland

end WnajOS
