import WnajOS.Lib
import WnajOS.Library.StringOps

/-!
# The inline assembly of `lib.c`

`memset`, `memcpy` and `memmove` are loops over single bytes around a repeated string instruction,
which works on four bytes at once where the destination is aligned.  What they make of memory is
what the plain functions say.
-/

namespace WnajOS

open StringOps

/-! ### `memset` -/

/-- The labels of `memset`. -/
inductive MemsetLabel
  | top | aligned | bottom | done
deriving DecidableEq

/-- The assembly of `memset`. -/
def memsetCode : List (Instr MemsetLabel) := [
  .label .top,
  .testl .ecx .ecx,
  .jz .done,
  .testlImm 3 .edi,
  .jz .aligned,
  .storeAl .edi,
  .addl 1 .edi,
  .subl 1 .ecx,
  .jmp .top,
  .label .aligned,
  .movwDsDx,
  .movwDxEs,
  .movl .ecx .edx,
  .shrl 2 .ecx,
  .andl 3 .edx,
  .cld,
  .repStos 4,
  .label .bottom,
  .testl .edx .edx,
  .jz .done,
  .storeAl .edi,
  .addl 1 .edi,
  .subl 1 .edx,
  .jmp .bottom,
  .label .done]

/-- The operand `c << 24 | c << 16 | c << 8 | c`, behind `c &= 0xFF`. -/
def memsetPattern (c : UInt32) : UInt32 :=
  (c &&& 0xFF) <<< 24 ||| (c &&& 0xFF) <<< 16 ||| (c &&& 0xFF) <<< 8 ||| (c &&& 0xFF)

lemma and_self_eq_zero {v : UInt32} : v &&& v = 0 ↔ v = 0 := by rw [UInt32.and_self]

/-- The number of words. -/
lemma toNat_shift_two (n : UInt32) : (n >>> 2).toNat = n.toNat / 4 := by
  rw [UInt32.toNat_shiftRight, Nat.shiftRight_eq_div_pow]
  rfl

/-- The number of bytes behind them. -/
lemma toNat_and_three (n : UInt32) : (n &&& 3).toNat = n.toNat % 4 := by
  rw [UInt32.toNat_and]
  exact Nat.and_two_pow_sub_one_eq_mod n.toNat 2

lemma toNat_sub_one {n : UInt32} (h : n ≠ 0) : (n - 1).toNat + 1 = n.toNat := by
  have h0 : n.toNat ≠ 0 := fun h0 => h (UInt32.toNat_inj.1 h0)
  have hlt := n.toNat_lt
  rw [UInt32.toNat_sub, UInt32.toNat_one]
  omega

section Memset

variable {s : Cpu} {c : UInt8}

/-- The loop at `.memset_bottom`. -/
lemma memset_bottom (hpc : s.pc = 17) (hal : s.eax.toUInt8 = c) :
    Halts memsetCode (fun t => t.mem = fill s.mem s.edi s.edx.toNat c) s := by
  induction hm : s.edx.toNat generalizing s with
  | zero =>
    obtain ⟨eax, ecx, edx, esi, edi, ds, es, zf, cf, df, mem, pc⟩ := s
    dsimp only at *
    subst hpc
    have h0 : edx = 0 := UInt32.toNat_inj.1 hm
    refine Halts.step rfl (Halts.step rfl (Halts.step rfl ?_))
    rw [exec_jz_of _ (decide_eq_true (and_self_eq_zero.2 h0))]
    refine Halts.step rfl (Halts.done rfl ?_)
    exact fill_zero.symm
  | succ m ih =>
    obtain ⟨eax, ecx, edx, esi, edi, ds, es, zf, cf, df, mem, pc⟩ := s
    dsimp only at *
    subst hpc
    have hne : edx ≠ 0 := by
      rintro rfl
      exact absurd hm (Nat.succ_ne_zero m).symm
    have hpred := toNat_sub_one hne
    refine Halts.step rfl (Halts.step rfl (Halts.step rfl ?_))
    rw [exec_jz_of_not _ (decide_eq_false (mt and_self_eq_zero.1 hne))]
    refine Halts.step rfl (Halts.step rfl (Halts.step rfl (Halts.step rfl ?_)))
    refine Halts.mono (fun t ht => ?_) (ih rfl hal (show (edx - 1).toNat = m by omega))
    rw [ht]
    change fill (Function.update mem edi eax.toUInt8) (edi + UInt32.ofNat 1) m c = _
    have hlt := edx.toNat_lt
    rw [hal, update_eq_fill, fill_fill (by omega) (by decide), Nat.add_comm]

/-- The loop at `.memset_top`, from any destination on. -/
lemma memset_top (hpc : s.pc = 0) (hbytes : BytesOf 4 s.eax c) :
    Halts memsetCode (fun t => t.mem = fill s.mem s.edi s.ecx.toNat c) s := by
  have hal (v : UInt32) (h : BytesOf 4 v c) : v.toUInt8 = c := by
    have h0 := h 0 (by decide)
    rwa [UInt32.mul_zero, UInt32.shiftRight_zero] at h0
  induction hm : s.ecx.toNat generalizing s with
  | zero =>
    obtain ⟨eax, ecx, edx, esi, edi, ds, es, zf, cf, df, mem, pc⟩ := s
    dsimp only at *
    subst hpc
    have h0 : ecx = 0 := UInt32.toNat_inj.1 hm
    refine Halts.step rfl (Halts.step rfl (Halts.step rfl ?_))
    rw [exec_jz_of _ (decide_eq_true (and_self_eq_zero.2 h0))]
    refine Halts.step rfl (Halts.done rfl ?_)
    exact fill_zero.symm
  | succ m ih =>
    obtain ⟨eax, ecx, edx, esi, edi, ds, es, zf, cf, df, mem, pc⟩ := s
    dsimp only at *
    subst hpc
    have hne : ecx ≠ 0 := by
      rintro rfl
      exact absurd hm (Nat.succ_ne_zero m).symm
    have hpred := toNat_sub_one hne
    have hlt := ecx.toNat_lt
    refine Halts.step rfl (Halts.step rfl (Halts.step rfl ?_))
    rw [exec_jz_of_not _ (decide_eq_false (mt and_self_eq_zero.1 hne))]
    refine Halts.step rfl (Halts.step rfl ?_)
    by_cases halign : edi &&& 3 = 0
    · -- words, and then the bytes behind them
      rw [exec_jz_of _ (decide_eq_true halign)]
      refine Halts.step rfl (Halts.step rfl (Halts.step rfl (Halts.step rfl (Halts.step rfl
        (Halts.step rfl (Halts.step rfl ?_))))))
      have hwords := toNat_shift_two ecx
      have hrest := toNat_and_three ecx
      dsimp only [exec, Cpu.next, Cpu.set, Cpu.get, Cpu.flags, Cpu.jump]
      refine Halts.repStos rfl rfl hbytes (show 4 * (ecx >>> 2).toNat < 2 ^ 32 by omega) ?_
      refine Halts.mono (fun t ht => ?_) (memset_bottom rfl (hal eax hbytes))
      rw [ht]
      change fill (fill mem edi (4 * (ecx >>> 2).toNat) c)
        (edi + UInt32.ofNat (4 * (ecx >>> 2).toNat)) (ecx &&& 3).toNat c = _
      rw [fill_fill (by omega) (by omega)]
      exact congrArg (fill mem edi · c) (by omega)
    · rw [exec_jz_of_not _ (decide_eq_false halign)]
      refine Halts.step rfl (Halts.step rfl (Halts.step rfl (Halts.step rfl ?_)))
      refine Halts.mono (fun t ht => ?_) (ih rfl hbytes (show (ecx - 1).toNat = m by omega))
      rw [ht]
      change fill (Function.update mem edi eax.toUInt8) (edi + UInt32.ofNat 1) m c = _
      rw [hal eax hbytes, update_eq_fill, fill_fill (by omega) (by decide), Nat.add_comm]

/-- Every byte of the pattern is the low byte of the argument. -/
lemma bytesOf_pattern (c : UInt32) : BytesOf 4 (memsetPattern c) c.toUInt8 := by
  have hall : ∀ b : Fin 256, ∀ i : Fin 4,
      ((UInt32.ofNat b.val <<< 24 ||| UInt32.ofNat b.val <<< 16 ||| UInt32.ofNat b.val <<< 8 |||
        UInt32.ofNat b.val) >>> (8 * UInt32.ofNat i.val)).toUInt8 = UInt8.ofNat b.val := by
    decide +kernel
  have hmask : c &&& 0xFF = UInt32.ofNat (c.toNat % 256) := by
    refine UInt32.toNat_inj.1 ?_
    rw [UInt32.toNat_and, UInt32.toNat_ofNat_of_lt' (by rw [UInt32.size]; omega)]
    exact Nat.and_two_pow_sub_one_eq_mod c.toNat 8
  have hlow : c.toUInt8 = UInt8.ofNat (c.toNat % 256) := by
    refine UInt8.toNat_inj.1 ?_
    rw [UInt32.toNat_toUInt8, UInt8.toNat_ofNat_of_lt' (Nat.mod_lt _ (by decide))]
  intro i hi
  have hbyte := hall ⟨c.toNat % 256, Nat.mod_lt _ (by decide)⟩ ⟨i.toNat, hi⟩
  rw [memsetPattern, hmask, hlow, ← hbyte, UInt32.ofNat_toNat]

end Memset

/-- **`memset` sets the range.**  From any destination on, also across the end of memory, and
whatever the registers and flags hold, the code ends, and in memory is what `memset` says. -/
theorem memset_code (s : Cpu) (dest c n : UInt32) :
    ∃ k t, run memsetCode k { s with eax := memsetPattern c, edi := dest, ecx := n, pc := 0 } =
        some t ∧
      ∀ i < 2 ^ 32, t.mem (dest + UInt32.ofNat i) =
        memset (fun i => s.mem (dest + UInt32.ofNat i)) c.toUInt8 n.toNat i := by
  obtain ⟨k, t, hrun, hmem⟩ := memset_top
    (s := { s with eax := memsetPattern c, edi := dest, ecx := n, pc := 0 }) rfl (bytesOf_pattern c)
  refine ⟨k, t, hrun, fun i hi => ?_⟩
  rw [hmem, fill, add_ofNat_sub hi, memset]

/-! ### `memcpy` -/

/-- The labels of `memcpy`. -/
inductive MemcpyLabel
  | top | aligned | bottom | done
deriving DecidableEq

/-- The assembly of `memcpy`. -/
def memcpyCode : List (Instr MemcpyLabel) := [
  .label .top,
  .testl .ecx .ecx,
  .jz .done,
  .testlImm 3 .edi,
  .jz .aligned,
  .loadAl .esi,
  .storeAl .edi,
  .addl 1 .edi,
  .addl 1 .esi,
  .subl 1 .ecx,
  .jmp .top,
  .label .aligned,
  .movwDsDx,
  .movwDxEs,
  .movl .ecx .edx,
  .shrl 2 .ecx,
  .andl 3 .edx,
  .cld,
  .repMovs 4,
  .label .bottom,
  .testl .edx .edx,
  .jz .done,
  .loadAl .esi,
  .storeAl .edi,
  .addl 1 .edi,
  .addl 1 .esi,
  .subl 1 .edx,
  .jmp .bottom,
  .label .done]

/-- The widths of the pieces behind an aligned destination. -/
def alignedPieces (n : ℕ) : List ℕ := List.replicate (n / 4) 4 ++ List.replicate (n % 4) 1

/-- The widths of the pieces that `memcpy` copies. -/
def memcpyPieces : (dest : UInt32) → (n : ℕ) → List ℕ
  | _, 0 => []
  | dest, n + 1 =>
    if dest &&& 3 = 0 then alignedPieces (n + 1) else 1 :: memcpyPieces (dest + 1) n

section Memcpy

variable {s : Cpu}

lemma toUInt8_loadAl (v : UInt32) (b : UInt8) :
    ((v &&& 0xFFFFFF00) ||| b.toUInt32).toUInt8 = b := by
  refine UInt8.toNat_inj.1 ?_
  rw [UInt32.toNat_toUInt8, UInt32.toNat_or, UInt32.toNat_and, UInt8.toNat_toUInt32,
    Nat.or_mod_two_pow (n := 8), Nat.and_mod_two_pow (n := 8)]
  have hlt := b.toNat_lt
  rw [show (0xFFFFFF00 : UInt32).toNat % 2 ^ 8 = 0 from rfl, Nat.and_zero, Nat.zero_or,
    Nat.mod_eq_of_lt hlt]

/-- The loop at `.memcpy_bottom`. -/
lemma memcpy_bottom (hpc : s.pc = 19) :
    Halts memcpyCode (fun t => t.mem = copyPieces (List.replicate s.edx.toNat 1) s.edi s.esi s.mem)
      s := by
  induction hm : s.edx.toNat generalizing s with
  | zero =>
    obtain ⟨eax, ecx, edx, esi, edi, ds, es, zf, cf, df, mem, pc⟩ := s
    dsimp only at *
    subst hpc
    have h0 : edx = 0 := UInt32.toNat_inj.1 hm
    refine Halts.step rfl (Halts.step rfl (Halts.step rfl ?_))
    rw [exec_jz_of _ (decide_eq_true (and_self_eq_zero.2 h0))]
    exact Halts.step rfl (Halts.done rfl rfl)
  | succ m ih =>
    obtain ⟨eax, ecx, edx, esi, edi, ds, es, zf, cf, df, mem, pc⟩ := s
    dsimp only at *
    subst hpc
    have hne : edx ≠ 0 := by
      rintro rfl
      exact absurd hm (Nat.succ_ne_zero m).symm
    have hpred := toNat_sub_one hne
    refine Halts.step rfl (Halts.step rfl (Halts.step rfl ?_))
    rw [exec_jz_of_not _ (decide_eq_false (mt and_self_eq_zero.1 hne))]
    refine Halts.step rfl (Halts.step rfl (Halts.step rfl (Halts.step rfl (Halts.step rfl
      (Halts.step rfl ?_)))))
    refine Halts.mono (fun t ht => ?_) (ih rfl (show (edx - 1).toNat = m by omega))
    rw [ht]
    change copyPieces (List.replicate m 1) (edi + UInt32.ofNat 1) (esi + UInt32.ofNat 1)
      (Function.update mem edi ((eax &&& 0xFFFFFF00) ||| (mem esi).toUInt32).toUInt8) = _
    rw [toUInt8_loadAl, update_eq_copyBytes]
    rfl

/-- The loop at `.memcpy_top`. -/
lemma memcpy_top (hpc : s.pc = 0) :
    Halts memcpyCode (fun t => t.mem = copyPieces (memcpyPieces s.edi s.ecx.toNat) s.edi s.esi s.mem)
      s := by
  induction hm : s.ecx.toNat generalizing s with
  | zero =>
    obtain ⟨eax, ecx, edx, esi, edi, ds, es, zf, cf, df, mem, pc⟩ := s
    dsimp only at *
    subst hpc
    have h0 : ecx = 0 := UInt32.toNat_inj.1 hm
    refine Halts.step rfl (Halts.step rfl (Halts.step rfl ?_))
    rw [exec_jz_of _ (decide_eq_true (and_self_eq_zero.2 h0))]
    exact Halts.step rfl (Halts.done rfl rfl)
  | succ m ih =>
    obtain ⟨eax, ecx, edx, esi, edi, ds, es, zf, cf, df, mem, pc⟩ := s
    dsimp only at *
    subst hpc
    have hne : ecx ≠ 0 := by
      rintro rfl
      exact absurd hm (Nat.succ_ne_zero m).symm
    have hpred := toNat_sub_one hne
    have hlt := ecx.toNat_lt
    refine Halts.step rfl (Halts.step rfl (Halts.step rfl ?_))
    rw [exec_jz_of_not _ (decide_eq_false (mt and_self_eq_zero.1 hne))]
    refine Halts.step rfl (Halts.step rfl ?_)
    rw [memcpyPieces]
    by_cases halign : edi &&& 3 = 0
    · -- words, and then the bytes behind them
      rw [exec_jz_of _ (decide_eq_true halign), if_pos halign]
      refine Halts.step rfl (Halts.step rfl (Halts.step rfl (Halts.step rfl (Halts.step rfl
        (Halts.step rfl (Halts.step rfl ?_))))))
      have hwords := toNat_shift_two ecx
      have hrest := toNat_and_three ecx
      dsimp only [exec, Cpu.next, Cpu.set, Cpu.get, Cpu.flags, Cpu.jump]
      refine Halts.repMovs rfl rfl ?_
      refine Halts.mono (fun t ht => ?_) (memcpy_bottom rfl)
      rw [ht]
      dsimp only
      rw [hwords, hrest, hm, alignedPieces, copyPieces_append, List.sum_replicate, smul_eq_mul,
        Nat.mul_comm]
    · rw [exec_jz_of_not _ (decide_eq_false halign), if_neg halign]
      refine Halts.step rfl (Halts.step rfl (Halts.step rfl (Halts.step rfl (Halts.step rfl
        (Halts.step rfl ?_)))))
      refine Halts.mono (fun t ht => ?_) (ih rfl (show (ecx - 1).toNat = m by omega))
      rw [ht]
      change copyPieces (memcpyPieces (edi + 1) m) (edi + UInt32.ofNat 1) (esi + UInt32.ofNat 1)
        (Function.update mem edi ((eax &&& 0xFFFFFF00) ||| (mem esi).toUInt32).toUInt8) = _
      rw [toUInt8_loadAl, update_eq_copyBytes]
      rfl

lemma sum_alignedPieces (n : ℕ) : (alignedPieces n).sum = n := by
  rw [alignedPieces, List.sum_append, List.sum_replicate, List.sum_replicate, smul_eq_mul,
    smul_eq_mul]
  omega

lemma sum_memcpyPieces (dest : UInt32) (n : ℕ) : (memcpyPieces dest n).sum = n := by
  induction n generalizing dest with
  | zero => rfl
  | succ n ih =>
    rw [memcpyPieces]
    split
    · exact sum_alignedPieces _
    · rw [List.sum_cons, ih, Nat.add_comm]

/-- The first piece is a byte, or a word of an aligned destination. -/
lemma memcpyPieces_cons (dest : UInt32) {n : ℕ} (h : n ≠ 0) : ∃ w ws,
    memcpyPieces dest n = w :: ws ∧ (w = 1 ∨ w = 4 ∧ 4 ≤ n ∧ dest &&& 3 = 0) := by
  obtain ⟨m, rfl⟩ := Nat.exists_eq_succ_of_ne_zero h
  rw [Nat.succ_eq_add_one, memcpyPieces]
  split
  · rename_i halign
    rw [alignedPieces]
    cases hq : (m + 1) / 4 with
    | zero =>
      have hmod : (m + 1) % 4 = m % 4 + 1 := by omega
      rw [hmod]
      exact ⟨1, _, rfl, Or.inl rfl⟩
    | succ q => exact ⟨4, _, rfl, Or.inr ⟨rfl, by omega, halign⟩⟩
  · exact ⟨1, _, rfl, Or.inl rfl⟩

/-- Where the pieces make a copy. -/
lemma memcpyPieces_copy {dest src n : UInt32} {mem : UInt32 → UInt8}
    (h : dest = src ∨ n ≤ dest - src ∨ dest &&& 3 = 0 ∧ n = 4) :
    copyPieces (memcpyPieces dest n.toNat) dest src mem = copyBytes n.toNat dest src mem := by
  have hlt := n.toNat_lt
  have hsum := sum_memcpyPieces dest n.toNat
  rcases h with h | h | ⟨halign, rfl⟩
  · rw [copyPieces_eq (by omega) (Or.inl h), hsum]
  · have hle := UInt32.le_iff_toNat_le.1 h
    rw [copyPieces_eq (by omega) (Or.inr (by omega)), hsum]
  · have hpieces : memcpyPieces dest (4 : UInt32).toNat = [4] := by
      change memcpyPieces dest (3 + 1) = [4]
      rw [memcpyPieces, if_pos halign]
      rfl
    rw [hpieces]
    rfl

/-- Where they do not. -/
lemma memcpyPieces_clash {dest src n : UInt32}
    (h : ¬(dest = src ∨ n ≤ dest - src ∨ dest &&& 3 = 0 ∧ n = 4)) :
    ∃ mem, ∃ i < n.toNat, copyPieces (memcpyPieces dest n.toNat) dest src mem
      (dest + UInt32.ofNat i) ≠ mem (src + UInt32.ofNat i) := by
  push Not at h
  obtain ⟨hne, hlt, hword⟩ := h
  have hlt' := UInt32.lt_iff_toNat_lt.1 (UInt32.not_le.1 hlt)
  have hn := n.toNat_lt
  have hsum := sum_memcpyPieces dest n.toNat
  obtain ⟨w, ws, hpieces, hw⟩ := memcpyPieces_cons dest (show n.toNat ≠ 0 by omega)
  rw [hpieces] at hsum ⊢
  have hpos : (dest - src).toNat ≠ 0 := by
    intro h0
    have heq := UInt32.sub_eq_iff_eq_add.1 (UInt32.toNat_inj.1 (h0.trans UInt32.toNat_zero.symm))
    rw [UInt32.zero_add] at heq
    exact hne heq
  have hread : (src + UInt32.ofNat (dest - src).toNat - dest).toNat = 0 := by
    have h0 : src + (dest - src) - dest = 0 := by grind
    rw [UInt32.ofNat_toNat, h0, UInt32.toNat_zero]
  by_cases hfar : w ≤ (dest - src).toNat
  · -- the byte that is stored first is read again
    obtain ⟨mem, hmem⟩ := copyPieces_clash (show (w :: ws).sum < 2 ^ 32 by omega) hfar (by omega)
      (show (src + UInt32.ofNat (dest - src).toNat - dest).toNat < w by omega) hne
    exact ⟨mem, _, by omega, hmem⟩
  · -- a destination within the first word
    obtain ⟨rfl, h4, halign⟩ : w = 4 ∧ 4 ≤ n.toNat ∧ dest &&& 3 = 0 := by
      rcases hw with rfl | hw
      · omega
      · exact hw
    have hn4 : n.toNat ≠ 4 := fun heq => hword halign (UInt32.toNat_inj.1 heq)
    have hread4 : (src + UInt32.ofNat 4 - dest).toNat < 4 := by
      have hsub : src + UInt32.ofNat 4 - dest = 4 - (dest - src) := by
        rw [show UInt32.ofNat 4 = 4 from rfl]
        grind
      rw [hsub, UInt32.toNat_sub, show (4 : UInt32).toNat = 4 from rfl]
      omega
    obtain ⟨mem, hmem⟩ := copyPieces_clash (show (4 :: ws).sum < 2 ^ 32 by omega) le_rfl
      (by omega) hread4 hne
    exact ⟨mem, 4, by omega, hmem⟩

end Memcpy

/-- **`memcpy` copies**, from any destination on and across the end of memory, exactly when the
destination does not begin behind the source within the range; a single aligned word is copied from
anywhere. -/
theorem memcpy_code (dest src n : UInt32) :
    (∀ s : Cpu, ∃ k t,
      run memcpyCode k { s with esi := src, edi := dest, ecx := n, pc := 0 } = some t ∧
      ∀ i < 2 ^ 32, t.mem (dest + UInt32.ofNat i) =
        memcpy (fun i => s.mem (dest + UInt32.ofNat i)) (fun i => s.mem (src + UInt32.ofNat i))
          n.toNat i) ↔
      dest = src ∨ n ≤ dest - src ∨ dest &&& 3 = 0 ∧ n = 4 := by
  constructor
  · intro hall
    by_contra hcond
    obtain ⟨mem, i, hi, hmem⟩ := memcpyPieces_clash hcond
    obtain ⟨k, t, hrun, ht⟩ := hall ⟨0, 0, 0, 0, 0, 0, 0, false, false, false, mem, 0⟩
    obtain ⟨k', t', hrun', ht'⟩ := memcpy_top
      (s := ⟨0, n, 0, src, dest, 0, 0, false, false, false, mem, 0⟩) rfl
    obtain rfl := run_unique hrun' hrun
    have hbyte := ht i (hi.trans n.toNat_lt)
    rw [ht', memcpy, if_pos hi] at hbyte
    exact hmem hbyte
  · intro hcond s
    obtain ⟨k, t, hrun, ht⟩ := memcpy_top
      (s := { s with esi := src, edi := dest, ecx := n, pc := 0 }) rfl
    refine ⟨k, t, hrun, fun i hi => ?_⟩
    rw [ht]
    dsimp only
    rw [memcpyPieces_copy hcond, copyBytes_apply hi, memcpy]

/-! ### `memmove` -/

/-- The label of `memmove`. -/
inductive MemmoveLabel
  | go
deriving DecidableEq

/-- The assembly of `memmove`. -/
def memmoveCode : List (Instr MemmoveLabel) := [
  .movwDsDx,
  .movwDxEs,
  .cld,
  .cmpl .edi .esi,
  .jae .go,
  .leal (-1) .esi .ecx .esi,
  .leal (-1) .edi .ecx .edi,
  .std,
  .label .go,
  .repMovs 1]

section Memmove

variable {s : Cpu}

/-- Upwards, or downwards where the destination lies behind the source. -/
lemma memmove_halts (hpc : s.pc = 0) :
    Halts memmoveCode (fun t => t.mem = (if s.esi < s.edi then
        copyDown s.ecx.toNat s.edi s.esi s.mem
      else copyPieces (List.replicate s.ecx.toNat 1) s.edi s.esi s.mem) ∧
        t.df = decide (s.esi < s.edi)) s := by
  obtain ⟨eax, ecx, edx, esi, edi, ds, es, zf, cf, df, mem, pc⟩ := s
  dsimp only at *
  subst hpc
  refine Halts.step rfl (Halts.step rfl (Halts.step rfl (Halts.step rfl (Halts.step rfl ?_))))
  by_cases hlt : esi < edi
  · rw [exec_jae_of_not _ (decide_eq_true hlt), if_pos hlt]
    refine Halts.step rfl (Halts.step rfl (Halts.step rfl (Halts.step rfl ?_)))
    dsimp only [exec, Cpu.next, Cpu.set, Cpu.get, Cpu.flags]
    have hedi : edi + ecx + -1 = edi + UInt32.ofNat ecx.toNat - 1 := by
      rw [UInt32.ofNat_toNat, UInt32.add_neg_eq_sub]
    have hesi : esi + ecx + -1 = esi + UInt32.ofNat ecx.toNat - 1 := by
      rw [UInt32.ofNat_toNat, UInt32.add_neg_eq_sub]
    refine Halts.repMovs_down rfl rfl hedi hesi ?_
    exact Halts.done rfl ⟨rfl, (decide_eq_true hlt).symm⟩
  · rw [exec_jae_of _ (decide_eq_false hlt), if_neg hlt]
    refine Halts.step rfl ?_
    dsimp only [exec, Cpu.next, Cpu.set, Cpu.get, Cpu.flags, Cpu.jump]
    refine Halts.repMovs rfl rfl ?_
    exact Halts.done rfl ⟨rfl, (decide_eq_false hlt).symm⟩

end Memmove

/-- **`memmove` moves**, also within the range: in memory is what `memmove` says.  Behind it the
string instructions still go downwards when the destination lies behind the source. -/
theorem memmove_code (s : Cpu) (dest src n : UInt32) (hdest : dest.toNat + n.toNat ≤ 2 ^ 32)
    (hsrc : src.toNat + n.toNat ≤ 2 ^ 32) :
    ∃ k t, run memmoveCode k { s with esi := src, edi := dest, ecx := n, pc := 0 } = some t ∧
      (∀ a < 2 ^ 32, t.mem (UInt32.ofNat a) =
        memmove dest.toNat src.toNat n.toNat (fun a => s.mem (UInt32.ofNat a)) a) ∧
      t.df = decide (src < dest) := by
  obtain ⟨k, t, hrun, hmem, hdf⟩ := memmove_halts
    (s := { s with esi := src, edi := dest, ecx := n, pc := 0 }) rfl
  refine ⟨k, t, hrun, fun a ha => ?_, hdf⟩
  dsimp only at hmem
  have hn := n.toNat_lt
  have hcopy : t.mem = copyBytes n.toNat dest src s.mem := by
    rw [hmem]
    split
    · rename_i hlt
      have hlt' := UInt32.lt_iff_toNat_lt.1 hlt
      refine copyDown_eq hn ?_
      rw [UInt32.toNat_sub]
      omega
    · rename_i hge
      have hge' := UInt32.le_iff_toNat_le.1 (UInt32.not_lt.1 hge)
      have hsum : (List.replicate n.toNat 1).sum = n.toNat := by
        rw [List.sum_replicate, smul_eq_mul, Nat.mul_one]
      rw [copyPieces_eq (by omega) ?_, hsum]
      by_cases heq : dest = src
      · exact Or.inl heq
      · refine Or.inr ?_
        have hne : dest.toNat ≠ src.toNat := fun h => heq (UInt32.toNat_inj.1 h)
        rw [hsum, UInt32.toNat_sub]
        omega
  have hoff : (UInt32.ofNat a - dest).toNat = (2 ^ 32 - dest.toNat + a) % 2 ^ 32 := by
    rw [UInt32.toNat_sub, UInt32.toNat_ofNat_of_lt' ha]
  have hd := dest.toNat_lt
  rw [hcopy, copyBytes, memmove_apply, hoff]
  by_cases hin : dest.toNat ≤ a ∧ a < dest.toNat + n.toNat
  · rw [if_pos (by omega), if_pos hin]
    refine congrArg s.mem (UInt32.toNat_inj.1 ?_)
    rw [UInt32.toNat_add, hoff, UInt32.toNat_ofNat_of_lt' (by rw [UInt32.size]; omega)]
    omega
  · rw [if_neg (by omega), if_neg hin]

/-- A machine with the numbers 0, 1, 2, ... in memory. -/
def countingCpu : Cpu :=
  ⟨0, 0, 0, 0, 0, 0, 0, false, false, false, fun a => a.toUInt8, 0⟩

/-- Five bytes moved by two. -/
theorem memmove_code_five : ∃ k t,
    run memmoveCode k { countingCpu with esi := 100, edi := 102, ecx := 5, pc := 0 } = some t ∧
      t.mem 106 = 104 ∧ t.df = true := by
  obtain ⟨k, t, hrun, hmem, hdf⟩ := memmove_code countingCpu 102 100 5 (by decide) (by decide)
  exact ⟨k, t, hrun, (hmem 106 (by decide)).trans (by decide), hdf⟩

end WnajOS
