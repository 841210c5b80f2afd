import WnajOS.FileSystem.ReadData

/-!
# The range that `read_data` copies

Inside a file, `read_data` copies the range it is asked for, cut at the end of the file, or
the part of it before the first byte whose data block does not exist.
-/

namespace WnajOS

/-- With at least one data block the check of the code is the check of the index entry. -/
lemma blockPasses_iff {img : Image} (h : 1 ≤ img.numDataBlks) (ino : Inode) (j : ℕ) :
    BlockPasses img ino j ↔ BlockOk img ino j := by
  refine ⟨fun hpass => ?_, BlockOk.passes⟩
  have h1 : (1 : ℕ) ≤ img.numDataBlks.toNat := UInt32.le_iff_toNat_le.1 h
  have h2 : (img.numDataBlks - 1).toNat = img.numDataBlks.toNat - 1 := UInt32.toNat_sub_of_le _ _ h
  have h3 : (ino.dataBlocks j).toNat ≤ (img.numDataBlks - 1).toNat :=
    UInt32.le_iff_toNat_le.1 (UInt32.not_lt.1 hpass)
  rw [BlockOk, UInt32.lt_iff_toNat_lt]
  omega

/-- Inside a file, a read of at least one byte meets the specification, whether or not the
first block exists. -/
lemma readData_inside {img : Image} {inode offset length : UInt32} (buf : Buf)
    (hino : inode < img.numInodes)
    (hoff : offset.toNat < (img.inodes inode.toNat).length.toNat) (hlen : 0 < length.toNat) :
    ∃ m, ReadSpec img (img.inodes inode.toNat) length length.toNat offset.toNat 0 buf
      (readData img inode offset buf length) m := by
  have hle : offset ≤ (img.inodes inode.toNat).length := UInt32.le_iff_toNat_le.2 hoff.le
  by_cases hbegins : Begins img inode offset
  · exact readData_of_begins length buf hle hbegins
  · have hblk : ¬BlockPasses img (img.inodes inode.toNat) (offset.toNat / dataBlkSize) :=
      fun hpass => hbegins ⟨inode_ok hino, hpass⟩
    rw [readData_of_not_begins length buf hle hbegins]
    refine ⟨0, Nat.zero_le _, rfl, (Buf.put_zero _ _ _).symm, by simp, by simp, ?_⟩
    exact Or.inr (Or.inr ⟨hlen, hoff, hblk, rfl⟩)

/-- The first `m` bytes of the buffer are those of the file from `offset` on, the others are
as they were. -/
structure Copied (img : Image) (ino : Inode) (offset m : ℕ) (buf buf' : Buf) : Prop where
  bytes : ∀ i < m, buf' i = fileByte img ino (offset + i)
  rest : ∀ i, m ≤ i → buf' i = buf i

lemma ReadSpec.copied {img : Image} {ino : Inode} {length : UInt32} {n offset m : ℕ} {buf : Buf}
    {r : ReadData} (h : ReadSpec img ino length n offset 0 buf r m) :
    Copied img ino offset m buf r.buf := by
  rw [h.bytes]
  refine ⟨fun i hi => Buf.put_of_lt hi, fun i hi => Buf.put_of_ge ?_⟩
  omega

/-- `r` is the outcome of an exact read of the `m` bytes of a file from `offset` on, where
`length` bytes were asked for. -/
structure ExactRead (img : Image) (ino : Inode) (offset m : ℕ) (length : UInt32) (buf : Buf)
    (r : ReadData) : Prop where
  /-- all data blocks of the range exist -/
  good : (∀ i < m, BlockOk img ino ((offset + i) / dataBlkSize)) →
    Copied img ino offset m buf r.buf ∧
      r.ret.toInt = if m = length.toNat then (length.toNat : ℤ) else 0
  /-- `k` is the first byte whose data block does not -/
  bad : ∀ k < m, (∀ i < k, BlockOk img ino ((offset + i) / dataBlkSize)) →
    ¬BlockOk img ino ((offset + k) / dataBlkSize) →
    Copied img ino offset k buf r.buf ∧ r.ret = -1

/-- **`read_data` copies exactly the range, or stops at the first bad block.** -/
theorem read_data_exact (img : Image) (inode offset length : UInt32) (buf : Buf)
    (hblks : 1 ≤ img.numDataBlks) (hino : inode < img.numInodes)
    (hL : (img.inodes inode.toNat).length.toNat ≤ 1023 * 4096)
    (hoff : offset < (img.inodes inode.toNat).length) (hlen : 1 ≤ length) :
    ExactRead img (img.inodes inode.toNat) offset.toNat
      (min length.toNat ((img.inodes inode.toNat).length.toNat - offset.toNat)) length buf
      (readData img inode offset buf length) := by
  obtain ⟨ino, hi⟩ : ∃ ino, img.inodes inode.toNat = ino := ⟨_, rfl⟩
  have hoff' : offset.toNat < (img.inodes inode.toNat).length.toNat :=
    UInt32.lt_iff_toNat_lt.1 hoff
  have hlen' : 1 ≤ length.toNat := UInt32.le_iff_toNat_le.1 hlen
  obtain ⟨m, hm⟩ := readData_inside buf hino hoff' hlen'
  rw [hi] at hL hoff' hm ⊢
  have hpass (j : ℕ) : BlockPasses img ino j ↔ BlockOk img ino j := blockPasses_iff hblks ino j
  have hinside := hm.le_length
  constructor
  · intro hgood
    rcases hm.result with ⟨hmn, hret⟩ | ⟨hmn, hend, hret⟩ | ⟨hmn, hin, hbad, -⟩
    · -- all the bytes asked for
      have hmin : min length.toNat (ino.length.toNat - offset.toNat) = m := by omega
      rw [hmin, if_pos hmn, hret]
      exact ⟨hm.copied, toInt_toInt32_of_lt (by omega)⟩
    · -- the end of the file comes first
      have hmin : min length.toNat (ino.length.toNat - offset.toNat) = m := by omega
      rw [hmin, if_neg (by omega), hret]
      exact ⟨hm.copied, rfl⟩
    · exact absurd ((hpass _).2 (hgood m (by omega))) hbad
  · intro k hk hbefore hbad
    have hge : m ≤ k := by
      by_contra hlt
      exact hbad ((hpass _).1 (hm.passes k (by omega)))
    rcases hm.result with ⟨hmn, -⟩ | ⟨-, hend, -⟩ | ⟨-, -, hstop, hret⟩
    · omega
    · omega
    · -- the copy stopped at a bad block, which can only be that of byte `k`
      have hmk : m = k := by
        by_contra hne
        exact hstop ((hpass _).2 (hbefore m (by omega)))
      rw [← hmk]
      exact ⟨hm.copied, hret⟩

/-- The last two bytes of the text file of the small image, of three asked for. -/
theorem read_data_exact_fish :
    ExactRead sampleImage (sampleImage.inodes 1) 4096 2 3 (fun _ => 0)
      (readData sampleImage 1 4096 (fun _ => 0) 3) :=
  read_data_exact sampleImage 1 4096 3 (fun _ => 0) (by decide) (by decide) (by decide)
    (by decide) (by decide)

end WnajOS
