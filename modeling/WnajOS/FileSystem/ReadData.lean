import WnajOS.FileSystem.Image

/-!
# What `read_data` copies

`read_data` walks the file byte by byte and keeps the current data block cached.  The
specification `ReadSpec` says how far it gets: it stores the bytes `offset, offset + 1, …` of
the file at the start of the buffer and stops when the wanted number is reached, at the end
of the file, or at the first byte whose index entry fails the check.  The result tells the
three cases apart.
-/

namespace WnajOS

/-- The check `curr_db_number > total_data_blocks - 1` lets index entry `j` through. -/
def BlockPasses (img : Image) (ino : Inode) (j : ℕ) : Prop :=
  ¬ ino.dataBlocks j > img.numDataBlks - 1

lemma BlockOk.passes {img : Image} {ino : Inode} {j : ℕ} (h : BlockOk img ino j) :
    BlockPasses img ino j := by
  have h1 : (ino.dataBlocks j).toNat < img.numDataBlks.toNat := UInt32.lt_iff_toNat_lt.1 h
  have h2 : (img.numDataBlks - 1).toNat = img.numDataBlks.toNat - 1 :=
    UInt32.toNat_sub_of_le _ _ (by rw [UInt32.le_iff_toNat_le]; simp; omega)
  rw [BlockPasses, gt_iff_lt, UInt32.lt_iff_toNat_lt]
  omega

/-- A buffer in which `m` bytes from position `c` on have been replaced. -/
def Buf.put (buf : Buf) (c m : ℕ) (f : ℕ → UInt8) : Buf :=
  fun i => if c ≤ i ∧ i < c + m then f (i - c) else buf i

@[simp] lemma Buf.put_zero (buf : Buf) (c : ℕ) (f : ℕ → UInt8) : buf.put c 0 f = buf := by
  funext i
  rw [Buf.put, if_neg (by omega)]

lemma Buf.put_of_ge {buf : Buf} {c m i : ℕ} {f : ℕ → UInt8} (h : c + m ≤ i) :
    buf.put c m f i = buf i := by
  rw [Buf.put, if_neg (by omega)]

lemma Buf.put_of_lt {buf : Buf} {m i : ℕ} {f : ℕ → UInt8} (h : i < m) :
    buf.put 0 m f i = f i := by
  rw [Buf.put, if_pos (by omega), Nat.sub_zero]

/-- Storing one byte and then the next `m` is storing `m + 1` bytes. -/
lemma Buf.put_update (buf : Buf) (c m : ℕ) (f : ℕ → UInt8) :
    Buf.put (Function.update buf c (f 0)) (c + 1) m (fun j => f (j + 1))
      = buf.put c (m + 1) f := by
  funext i
  by_cases hi : i = c
  · subst hi
    rw [Buf.put, if_neg (by omega), Function.update_self, Buf.put, if_pos (by omega),
      Nat.sub_self]
  · rw [Buf.put, Buf.put, Function.update_of_ne hi]
    by_cases hr : c + 1 ≤ i ∧ i < c + 1 + m
    · rw [if_pos hr, if_pos (by omega), show i - (c + 1) + 1 = i - c by omega]
    · rw [if_neg hr, if_neg (by omega)]

/-- The outcome of reading `n` bytes of a file from `offset` on into a buffer that already
holds `c` bytes: `m` bytes were stored, and `m` falls short of `n` only at the end of the
file or at an index entry that fails the check. -/
structure ReadSpec (img : Image) (ino : Inode) (length : UInt32) (n offset c : ℕ) (buf : Buf)
    (r : ReadData) (m : ℕ) : Prop where
  le : m ≤ n
  counter : r.bufCounter = c + m
  bytes : r.buf = buf.put c m (fun j => fileByte img ino (offset + j))
  inside : ∀ j < m, offset + j < ino.length.toNat
  passes : ∀ j < m, BlockPasses img ino ((offset + j) / dataBlkSize)
  result : (m = n ∧ r.ret = length.toInt32) ∨
    (m < n ∧ ino.length.toNat ≤ offset + m ∧ r.ret = 0) ∨
    (m < n ∧ offset + m < ino.length.toNat ∧
      ¬ BlockPasses img ino ((offset + m) / dataBlkSize) ∧ r.ret = -1)

/-- The bytes stored end inside the file. -/
lemma ReadSpec.le_length {img : Image} {ino : Inode} {length : UInt32} {n offset c m : ℕ}
    {buf : Buf} {r : ReadData} (h : ReadSpec img ino length n offset c buf r m) :
    m = 0 ∨ offset + m ≤ ino.length.toNat := by
  rcases Nat.eq_zero_or_pos m with h0 | hpos
  · exact Or.inl h0
  · have hlast := h.inside (m - 1) (by omega)
    exact Or.inr (by omega)

/-- One more byte at the front of a specified read. -/
lemma ReadSpec.cons {img : Image} {ino : Inode} {length : UInt32} {n offset c : ℕ} {buf : Buf}
    {r : ReadData} {m : ℕ} (hlt : offset < ino.length.toNat)
    (hpass : BlockPasses img ino (offset / dataBlkSize))
    (h : ReadSpec img ino length n (offset + 1) (c + 1)
      (Function.update buf c (fileByte img ino offset)) r m) :
    ReadSpec img ino length (n + 1) offset c buf r (m + 1) := by
  refine ⟨Nat.succ_le_succ h.le, by rw [h.counter]; omega, ?_, ?_, ?_, ?_⟩
  · rw [h.bytes, ← Buf.put_update]
    simp only [Nat.add_zero, Nat.add_right_comm offset _ 1, ← Nat.add_assoc]
  · intro j hj
    cases j with
    | zero => exact hlt
    | succ j =>
      have := h.inside j (by omega)
      omega
  · intro j hj
    cases j with
    | zero => exact hpass
    | succ j =>
      rw [show offset + (j + 1) = offset + 1 + j by omega]
      exact h.passes j (by omega)
  · rw [show offset + (m + 1) = offset + 1 + m by omega]
    rcases h.result with ⟨hm, hr⟩ | ⟨hm, hL, hr⟩ | ⟨hm, hL, hb, hr⟩
    · exact Or.inl ⟨by omega, hr⟩
    · exact Or.inr (Or.inl ⟨by omega, hL, hr⟩)
    · exact Or.inr (Or.inr ⟨by omega, hL, hb, hr⟩)

/-- The copy loop meets its specification.  The cached block is the one of the current byte,
except right after a block boundary, where it is still the one of the byte before. -/
lemma readLoop_spec (img : Image) (ino : Inode) (length : UInt32) (n idx : ℕ) (cur : UInt32)
    (offset c : ℕ) (buf : Buf) (hcur : cur = ino.dataBlocks idx)
    (hpass : BlockPasses img ino idx)
    (hidx : (c = 0 ∧ idx = offset / dataBlkSize) ∨
      (c ≠ 0 ∧ 0 < offset ∧ idx = (offset - 1) / dataBlkSize)) :
    ∃ m, ReadSpec img ino length n offset c buf
      (readLoop img ino length n idx cur offset c buf) m := by
  induction n generalizing idx cur offset c buf with
  | zero => exact ⟨0, le_rfl, rfl, by simp [readLoop], by simp, by simp, Or.inl ⟨rfl, rfl⟩⟩
  | succ n ih =>
    by_cases hlt : offset < ino.length.toNat
    · by_cases hbd : c ≠ 0 ∧ offset % dataBlkSize = 0
      · -- the first byte of a new block: the next index entry is fetched and checked
        have hnext : idx + 1 = offset / dataBlkSize := by
          simp only [dataBlkSize] at hidx hbd ⊢
          omega
        by_cases hbad : ino.dataBlocks (idx + 1) > img.numDataBlks - 1
        · refine ⟨0, Nat.zero_le _, ?_, ?_, by simp, by simp, Or.inr (Or.inr ⟨by omega, ?_⟩)⟩
          · rw [readLoop, if_pos hlt, if_pos hbd, if_pos hbad]
            rfl
          · rw [readLoop, if_pos hlt, if_pos hbd, if_pos hbad, Buf.put_zero]
          · rw [readLoop, if_pos hlt, if_pos hbd, if_pos hbad, Nat.add_zero, ← hnext]
            exact ⟨hlt, not_not_intro hbad, rfl⟩
        · obtain ⟨m, hm⟩ := ih (idx + 1) _ (offset + 1) (c + 1)
            (Function.update buf c (fileByte img ino offset)) rfl hbad
            (Or.inr ⟨by omega, by omega, by simpa using hnext⟩)
          refine ⟨m + 1, ?_⟩
          rw [readLoop, if_pos hlt, if_pos hbd, if_neg hbad]
          rw [fileByte, ← hnext] at hm
          refine ReadSpec.cons hlt (hnext ▸ hbad) ?_
          rw [fileByte, ← hnext]
          exact hm
      · -- the cached block still holds the current byte
        have hsame : idx = offset / dataBlkSize := by
          simp only [dataBlkSize] at hidx hbd ⊢
          omega
        obtain ⟨m, hm⟩ := ih idx cur (offset + 1) (c + 1)
          (Function.update buf c (fileByte img ino offset)) hcur hpass
          (Or.inr ⟨by omega, by omega, by simpa using hsame⟩)
        refine ⟨m + 1, ?_⟩
        rw [readLoop, if_pos hlt, if_neg hbd, hcur]
        refine ReadSpec.cons hlt (hsame ▸ hpass) ?_
        rw [fileByte, ← hsame, ← hcur]
        rw [fileByte, ← hsame, ← hcur] at hm
        exact hm
    · refine ⟨0, Nat.zero_le _, ?_, ?_, by simp, by simp, Or.inr (Or.inl ⟨by omega, ?_⟩)⟩
      · rw [readLoop, if_neg hlt]
        rfl
      · rw [readLoop, if_neg hlt, Buf.put_zero]
      · rw [readLoop, if_neg hlt]
        exact ⟨by omega, rfl⟩

/-! ### The ways into `read_data` -/

/-- Both checks before the copy loop let the read through. -/
def Begins (img : Image) (inode offset : UInt32) : Prop :=
  ¬inode > img.numInodes - 1 ∧
    BlockPasses img (img.inodes inode.toNat) (offset.toNat / dataBlkSize)

instance (img : Image) (inode offset : UInt32) : Decidable (Begins img inode offset) :=
  inferInstanceAs (Decidable (¬_ ∧ ¬_ > _))

/-- An inode number below the count is accepted. -/
lemma inode_ok {num inode : UInt32} (h : inode < num) : ¬ inode > num - 1 := by
  have h1 : inode.toNat < num.toNat := UInt32.lt_iff_toNat_lt.1 h
  have h2 : (num - 1).toNat = num.toNat - 1 :=
    UInt32.toNat_sub_of_le _ _ (by rw [UInt32.le_iff_toNat_le]; simp; omega)
  rw [gt_iff_lt, UInt32.lt_iff_toNat_lt]
  omega

section ReadData

variable {img : Image} {inode offset : UInt32} (length : UInt32) (buf : Buf)

lemma readData_past_end (hino : inode < img.numInodes)
    (hoff : (img.inodes inode.toNat).length < offset) :
    readData img inode offset buf length = ⟨0, buf, 0⟩ := by
  rw [readData, if_neg (inode_ok hino), if_pos hoff]

/-- Up to the end of the file, `read_data` fails at once where a check fails. -/
lemma readData_of_not_begins (hoff : offset ≤ (img.inodes inode.toNat).length)
    (h : ¬Begins img inode offset) : readData img inode offset buf length = ⟨-1, buf, 0⟩ := by
  rw [readData]
  by_cases hino : inode > img.numInodes - 1
  · rw [if_pos hino]
  · have hblk : ¬BlockPasses img (img.inodes inode.toNat) (offset.toNat / dataBlkSize) :=
      fun hpass => h ⟨hino, hpass⟩
    rw [if_neg hino]
    dsimp only
    rw [if_neg (UInt32.not_lt.2 hoff), if_pos (not_not.1 hblk)]

/-- Otherwise it copies as far as it can. -/
lemma readData_of_begins (hoff : offset ≤ (img.inodes inode.toNat).length)
    (h : Begins img inode offset) :
    ∃ m, ReadSpec img (img.inodes inode.toNat) length length.toNat offset.toNat 0 buf
      (readData img inode offset buf length) m := by
  rw [readData, if_neg h.1]
  dsimp only
  rw [if_neg (UInt32.not_lt.2 hoff), if_neg h.2]
  exact readLoop_spec _ _ _ _ _ _ _ _ _ rfl h.2 (Or.inl ⟨rfl, rfl⟩)

/-- With nothing to read, it returns 0 and stores nothing. -/
lemma readData_nothing (hoff : offset ≤ (img.inodes inode.toNat).length)
    (h : Begins img inode offset)
    (hnone : length = 0 ∨ offset = (img.inodes inode.toNat).length) :
    readData img inode offset buf length = ⟨0, buf, 0⟩ := by
  obtain ⟨m, hm⟩ := readData_of_begins length buf hoff h
  have hm0 : m = 0 := by
    by_contra hne
    have hin := hm.inside 0 (by omega)
    rcases hnone with rfl | rfl
    · exact hne (Nat.le_zero.1 hm.le)
    · exact absurd hin (Nat.lt_irrefl _)
  subst hm0
  have hret : (readData img inode offset buf length).ret = 0 := by
    rcases hm.result with ⟨hlen, hret⟩ | ⟨-, -, hret⟩ | ⟨hlt, hin, -, -⟩
    · have hz : length = 0 := UInt32.toNat_inj.1 (by rw [← hlen]; rfl)
      rw [hret, hz]
      rfl
    · exact hret
    · rcases hnone with rfl | rfl
      · exact absurd hlt (Nat.lt_irrefl _)
      · exact absurd hin (Nat.lt_irrefl _)
  have hbuf : (readData img inode offset buf length).buf = buf := by rw [hm.bytes, Buf.put_zero]
  have hcounter : (readData img inode offset buf length).bufCounter = 0 := hm.counter
  calc readData img inode offset buf length
      = ⟨(readData img inode offset buf length).ret, (readData img inode offset buf length).buf,
          (readData img inode offset buf length).bufCounter⟩ := rfl
    _ = ⟨0, buf, 0⟩ := by rw [hret, hbuf, hcounter]

end ReadData

end WnajOS
