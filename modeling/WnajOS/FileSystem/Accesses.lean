import WnajOS.FileSystem.Range

/-!
# The array accesses of `read_data`

`read_data` once more, with a list of the array elements that it touches.  Its guards compare
with `count - 1`, which is no bound when the count is 0, and nothing bounds the position in the
block index: which reads stay inside the three arrays is worked out below.
-/

namespace WnajOS

/-- An array element that `read_data` touches. -/
inductive Access
  /-- `inode_array_ptr[i]` -/
  | inode (i : ℕ)
  /-- `curr_inode->data_blocks[j]` -/
  | dataBlocks (j : ℕ)
  /-- `db_array_ptr[b].data[i]` -/
  | data (b i : ℕ)
deriving DecidableEq

/-- The element is one of its array. -/
def Access.InRange (img : Image) : Access → Prop
  | inode i => i < img.numInodes.toNat
  | dataBlocks j => j < inodeDataBlockNum
  | data b i => b < img.numDataBlks.toNat ∧ i < dataBlkSize

/-! ### `read_data` with its accesses -/

/-- The copy loop with its accesses.  At a block boundary the index entry is read twice, for
the check and for the address of the block. -/
def readLoopAccesses (img : Image) (ino : Inode) (length : UInt32) :
    (n inodeDbIdx : ℕ) → (currDbNumber : UInt32) → (offset bufCounter : ℕ) → Buf →
      ReadData × List Access
  | 0, _, _, _, bufCounter, buf => (⟨length.toInt32, buf, bufCounter⟩, [])
  | n + 1, inodeDbIdx, currDbNumber, offset, bufCounter, buf =>
    if offset < ino.length.toNat then
      if bufCounter ≠ 0 ∧ offset % dataBlkSize = 0 then
        let inodeDbIdx := inodeDbIdx + 1
        let currDbNumber := ino.dataBlocks inodeDbIdx
        if currDbNumber > img.numDataBlks - 1 then
          (⟨-1, buf, bufCounter⟩, [.dataBlocks inodeDbIdx])
        else
          let r := readLoopAccesses img ino length n inodeDbIdx currDbNumber (offset + 1)
            (bufCounter + 1) (Function.update buf bufCounter
              (img.blocks currDbNumber.toNat (offset % dataBlkSize)))
          (r.1, .dataBlocks inodeDbIdx :: .dataBlocks inodeDbIdx ::
            .data currDbNumber.toNat (offset % dataBlkSize) :: r.2)
      else
        let r := readLoopAccesses img ino length n inodeDbIdx currDbNumber (offset + 1)
          (bufCounter + 1) (Function.update buf bufCounter
            (img.blocks currDbNumber.toNat (offset % dataBlkSize)))
        (r.1, .data currDbNumber.toNat (offset % dataBlkSize) :: r.2)
    else (⟨0, buf, bufCounter⟩, [])

/-- `read_data` with its accesses. -/
def readDataAccesses (img : Image) (inode offset : UInt32) (buf : Buf) (length : UInt32) :
    ReadData × List Access :=
  if inode > img.numInodes - 1 then (⟨-1, buf, 0⟩, [])
  else
    let ino := img.inodes inode.toNat
    if offset > ino.length then (⟨0, buf, 0⟩, [.inode inode.toNat])
    else
      let inodeDbIdx := offset.toNat / dataBlkSize
      let currDbNumber := ino.dataBlocks inodeDbIdx
      if currDbNumber > img.numDataBlks - 1 then
        (⟨-1, buf, 0⟩, [.inode inode.toNat, .dataBlocks inodeDbIdx])
      else
        let r := readLoopAccesses img ino length length.toNat inodeDbIdx currDbNumber
          offset.toNat 0 buf
        (r.1, .inode inode.toNat :: .dataBlocks inodeDbIdx :: .dataBlocks inodeDbIdx :: r.2)

lemma readLoopAccesses_fst (img : Image) (ino : Inode) (length : UInt32) (n idx : ℕ)
    (cur : UInt32) (offset c : ℕ) (buf : Buf) :
    (readLoopAccesses img ino length n idx cur offset c buf).1
      = readLoop img ino length n idx cur offset c buf := by
  induction n generalizing idx cur offset c buf with
  | zero => rfl
  | succ n ih =>
    rw [readLoopAccesses, readLoop]
    dsimp only
    by_cases hlt : offset < ino.length.toNat
    · rw [if_pos hlt, if_pos hlt]
      by_cases hbd : c ≠ 0 ∧ offset % dataBlkSize = 0
      · rw [if_pos hbd, if_pos hbd]
        by_cases hbad : ino.dataBlocks (idx + 1) > img.numDataBlks - 1
        · rw [if_pos hbad, if_pos hbad]
        · rw [if_neg hbad, if_neg hbad]
          exact ih ..
      · rw [if_neg hbd, if_neg hbd]
        exact ih ..
    · rw [if_neg hlt, if_neg hlt]

/-- With its accesses `read_data` does what it does without. -/
theorem readDataAccesses_fst (img : Image) (inode offset : UInt32) (buf : Buf)
    (length : UInt32) :
    (readDataAccesses img inode offset buf length).1 = readData img inode offset buf length := by
  rw [readDataAccesses, readData]
  dsimp only
  by_cases hino : inode > img.numInodes - 1
  · rw [if_pos hino, if_pos hino]
  · rw [if_neg hino, if_neg hino]
    by_cases hoff : offset > (img.inodes inode.toNat).length
    · rw [if_pos hoff, if_pos hoff]
    · rw [if_neg hoff, if_neg hoff]
      by_cases hblk : (img.inodes inode.toNat).dataBlocks (offset.toNat / dataBlkSize)
          > img.numDataBlks - 1
      · rw [if_pos hblk, if_pos hblk]
      · rw [if_neg hblk, if_neg hblk]
        exact readLoopAccesses_fst ..

/-- All accesses of a read are in range. -/
def ReadInRange (img : Image) (inode offset length : UInt32) (buf : Buf) : Prop :=
  ∀ a ∈ (readDataAccesses img inode offset buf length).2, a.InRange img

/-! ### The loop -/

/-- The range of `m` bytes from `offset` on ends inside the block index, or a failing index
entry from `idx` on stops the copy before it leaves the index. -/
def StopsInside (img : Image) (ino : Inode) (idx offset m : ℕ) : Prop :=
  offset + m ≤ inodeDataBlockNum * dataBlkSize ∨
    ∃ j, idx ≤ j ∧ j < inodeDataBlockNum ∧ ¬BlockPasses img ino j

/-- An entry that passes the check is not the one that stops the copy. -/
lemma StopsInside.succ_iff {img : Image} {ino : Inode} {idx offset m : ℕ}
    (hpass : BlockPasses img ino idx) :
    StopsInside img ino idx offset m ↔ StopsInside img ino (idx + 1) offset m := by
  refine or_congr_right ⟨?_, ?_⟩
  · rintro ⟨j, hij, hj, hbad⟩
    have hne : idx ≠ j := fun heq => hbad (heq ▸ hpass)
    exact ⟨j, by omega, hj, hbad⟩
  · rintro ⟨j, hij, hj, hbad⟩
    exact ⟨j, by omega, hj, hbad⟩

lemma data_inRange {img : Image} {ino : Inode} {idx : ℕ} (offset : ℕ)
    (hblks : 1 ≤ img.numDataBlks) (hpass : BlockPasses img ino idx) :
    (Access.data (ino.dataBlocks idx).toNat (offset % dataBlkSize)).InRange img :=
  ⟨UInt32.lt_iff_toNat_lt.1 ((blockPasses_iff hblks ino idx).1 hpass), Nat.mod_lt _ (by decide)⟩

/-- With at least one data block, only the position in the block index can leave its array. -/
lemma readLoop_inRange_iff {img : Image} {ino : Inode} (hblks : 1 ≤ img.numDataBlks)
    (length : UInt32) (n idx : ℕ) (cur : UInt32) (offset c : ℕ) (buf : Buf)
    (hcur : cur = ino.dataBlocks idx) (hpass : BlockPasses img ino idx)
    (hidx : (c = 0 ∧ idx = offset / dataBlkSize) ∨
      (c ≠ 0 ∧ 0 < offset ∧ idx = (offset - 1) / dataBlkSize)) (hlt : idx < inodeDataBlockNum) :
    (∀ a ∈ (readLoopAccesses img ino length n idx cur offset c buf).2, a.InRange img) ↔
      StopsInside img ino idx offset (min n (ino.length.toNat - offset)) := by
  have hoff : offset ≤ inodeDataBlockNum * dataBlkSize := by
    simp only [dataBlkSize, inodeDataBlockNum] at hidx hlt ⊢
    omega
  induction n generalizing idx cur offset c buf with
  | zero =>
    rw [readLoopAccesses, Nat.zero_min]
    exact iff_of_true (by simp) (Or.inl hoff)
  | succ n ih =>
    rw [readLoopAccesses]
    by_cases hin : offset < ino.length.toNat
    · have hmin : min (n + 1) (ino.length.toNat - offset)
          = min n (ino.length.toNat - (offset + 1)) + 1 := by omega
      rw [if_pos hin, hmin, show ∀ m, StopsInside img ino idx offset (m + 1)
        ↔ StopsInside img ino idx (offset + 1) m by
          intro m
          rw [StopsInside, StopsInside, Nat.add_assoc, Nat.add_comm 1 m]]
      by_cases hbd : c ≠ 0 ∧ offset % dataBlkSize = 0
      · have hnext : idx + 1 = offset / dataBlkSize := by
          simp only [dataBlkSize] at hidx hbd ⊢
          omega
        rw [if_pos hbd, StopsInside.succ_iff hpass]
        dsimp only
        by_cases hend : idx + 1 < inodeDataBlockNum
        · by_cases hbad : ino.dataBlocks (idx + 1) > img.numDataBlks - 1
          · -- the copy stops at an entry of the index
            rw [if_pos hbad]
            refine iff_of_true ?_ (Or.inr ⟨idx + 1, le_rfl, hend, not_not_intro hbad⟩)
            exact List.forall_mem_singleton.2 hend
          · have hrest := ih (idx + 1) _ (offset + 1) (c + 1) (Function.update buf c
              (img.blocks (ino.dataBlocks (idx + 1)).toNat (offset % dataBlkSize))) rfl hbad
              (Or.inr ⟨Nat.succ_ne_zero c, Nat.succ_pos offset, by simpa using hnext⟩) hend
              (by simp only [dataBlkSize, inodeDataBlockNum] at hnext hend ⊢; omega)
            have hentry : (Access.dataBlocks (idx + 1)).InRange img := hend
            have hdata := data_inRange offset hblks hbad
            rw [if_neg hbad]
            simp only [List.forall_mem_cons, hentry, hdata, true_and]
            exact hrest
        · -- the index entry 1023 is looked at, and no entry before it stops the copy
          refine iff_of_false (fun hall => hend ?_) ?_
          · by_cases hbad : ino.dataBlocks (idx + 1) > img.numDataBlks - 1
            · rw [if_pos hbad] at hall
              exact hall _ (List.mem_singleton_self _)
            · rw [if_neg hbad] at hall
              exact hall _ List.mem_cons_self
          · rintro (hle | ⟨j, hj, hj', -⟩)
            · simp only [dataBlkSize, inodeDataBlockNum] at hnext hend hle
              omega
            · omega
      · have hsame : idx = offset / dataBlkSize := by
          simp only [dataBlkSize] at hidx hbd ⊢
          omega
        have hrest := ih idx cur (offset + 1) (c + 1) (Function.update buf c
          (img.blocks cur.toNat (offset % dataBlkSize))) hcur hpass
          (Or.inr ⟨Nat.succ_ne_zero c, Nat.succ_pos offset, by simpa using hsame⟩) hlt
          (by simp only [dataBlkSize, inodeDataBlockNum] at hsame hlt ⊢; omega)
        have hdata : (Access.data cur.toNat (offset % dataBlkSize)).InRange img :=
          hcur ▸ data_inRange offset hblks hpass
        rw [if_neg hbd]
        simp only [List.forall_mem_cons, hdata, true_and]
        exact hrest
    · rw [if_neg hin, show min (n + 1) (ino.length.toNat - offset) = 0 by omega]
      exact iff_of_true (by simp) (Or.inl hoff)

/-- Without data blocks every index entry passes the check, and the first byte copied is out
of range. -/
lemma readLoop_noBlocks {img : Image} {ino : Inode} (hblks : img.numDataBlks = 0)
    (length : UInt32) (n : ℕ) (idx : ℕ) (cur : UInt32) (offset : ℕ) (buf : Buf) :
    (∀ a ∈ (readLoopAccesses img ino length n idx cur offset 0 buf).2, a.InRange img) ↔
      min n (ino.length.toNat - offset) = 0 := by
  cases n with
  | zero => exact iff_of_true (by simp [readLoopAccesses]) (Nat.zero_min _)
  | succ n =>
    rw [readLoopAccesses]
    by_cases hin : offset < ino.length.toNat
    · rw [if_pos hin, if_neg (by simp)]
      refine iff_of_false (fun hall => ?_) (by omega)
      have hdata := (hall _ List.mem_cons_self).1
      rw [hblks] at hdata
      exact absurd hdata (Nat.not_lt_zero _)
    · rw [if_neg hin]
      exact iff_of_true (by simp) (by omega)

/-! ### The whole read -/

/-- How many bytes a read wants to copy. -/
def wanted (ino : Inode) (offset length : UInt32) : ℕ :=
  min length.toNat (ino.length.toNat - offset.toNat)

/-- The condition under which a read stays inside the arrays: there are inodes; and where the
inode exists and the offset is not past the end of the file, the offset is below 1023 blocks,
and if a byte is wanted then there are data blocks and the copy does not leave the index. -/
def Bounded (img : Image) (inode offset length : UInt32) : Prop :=
  let ino := img.inodes inode.toNat
  img.numInodes ≠ 0 ∧ (inode < img.numInodes → offset ≤ ino.length →
    offset.toNat < inodeDataBlockNum * dataBlkSize ∧ (0 < wanted ino offset length →
      img.numDataBlks ≠ 0 ∧ StopsInside img ino (offset.toNat / dataBlkSize) offset.toNat
        (wanted ino offset length)))

lemma one_le_of_ne_zero {n : UInt32} (h : n ≠ 0) : 1 ≤ n := by
  have h0 : n.toNat ≠ 0 := fun h0 => h (UInt32.toNat_inj.1 h0)
  rw [UInt32.le_iff_toNat_le, UInt32.toNat_one]
  omega

/-- With inodes at all, the check of the inode number is a bound. -/
lemma inode_refused_iff {num inode : UInt32} (h : num ≠ 0) : inode > num - 1 ↔ ¬inode < num := by
  have h1 : (1 : ℕ) ≤ num.toNat := UInt32.le_iff_toNat_le.1 (one_le_of_ne_zero h)
  have h2 : (num - 1).toNat = num.toNat - 1 := UInt32.toNat_sub_of_le _ _ (one_le_of_ne_zero h)
  rw [gt_iff_lt, UInt32.lt_iff_toNat_lt, UInt32.lt_iff_toNat_lt, h2]
  omega

/-- Without data blocks the check of an index entry lets everything through. -/
lemma passes_of_noBlocks {img : Image} (h : img.numDataBlks = 0) (ino : Inode) (j : ℕ) :
    BlockPasses img ino j := by
  rw [BlockPasses, h, UInt32.not_lt]
  exact UInt32.le_iff_toNat_le.2 (Nat.le_of_lt_succ (UInt32.toNat_lt _))

/-- Without inodes the check of the inode number lets everything through, and the first access
is out of range. -/
lemma not_inRange_of_noInodes {img : Image} (h : img.numInodes = 0) (inode offset length : UInt32)
    (buf : Buf) : ¬ReadInRange img inode offset length buf := by
  have hpass : ¬inode > img.numInodes - 1 := by
    rw [h, gt_iff_lt, UInt32.not_lt]
    exact UInt32.le_iff_toNat_le.2 (Nat.le_of_lt_succ (UInt32.toNat_lt _))
  have hmem : Access.inode inode.toNat ∈ (readDataAccesses img inode offset buf length).2 := by
    rw [readDataAccesses, if_neg hpass]
    dsimp only
    split
    · exact List.mem_singleton_self _
    · split
      · exact List.mem_cons_self
      · exact List.mem_cons_self
  intro hall
  have hlt : inode.toNat < img.numInodes.toNat := hall _ hmem
  rw [h] at hlt
  exact absurd hlt (Nat.not_lt_zero _)

/-- Reads from an existing inode, up to the end of the file. -/
lemma inRange_iff_of_inside {img : Image} {inode offset : UInt32} (length : UInt32) (buf : Buf)
    (hino : inode < img.numInodes) (hoff : offset ≤ (img.inodes inode.toNat).length) :
    ReadInRange img inode offset length buf ↔
      offset.toNat < inodeDataBlockNum * dataBlkSize ∧
        (0 < wanted (img.inodes inode.toNat) offset length → img.numDataBlks ≠ 0 ∧
          StopsInside img (img.inodes inode.toNat) (offset.toNat / dataBlkSize) offset.toNat
            (wanted (img.inodes inode.toNat) offset length)) := by
  have hin : (Access.inode inode.toNat).InRange img := UInt32.lt_iff_toNat_lt.1 hino
  have hbound : (Access.dataBlocks (offset.toNat / dataBlkSize)).InRange img
      ↔ offset.toNat < inodeDataBlockNum * dataBlkSize := Nat.div_lt_iff_lt_mul (by decide)
  rw [ReadInRange, readDataAccesses, if_neg (inode_ok hino)]
  dsimp only
  rw [if_neg (UInt32.not_lt.2 hoff)]
  by_cases hblk : (img.inodes inode.toNat).dataBlocks (offset.toNat / dataBlkSize)
      > img.numDataBlks - 1
  · -- the copy does not begin
    rw [if_pos hblk]
    simp only [List.forall_mem_cons, hin, hbound, true_and, List.not_mem_nil, false_imp_iff,
      implies_true, and_true]
    refine ⟨fun hlt => ⟨hlt, fun _ => ⟨fun h0 => ?_, Or.inr ?_⟩⟩, fun h => h.1⟩
    · exact passes_of_noBlocks h0 _ _ hblk
    · exact ⟨_, le_rfl, hbound.2 hlt, not_not_intro hblk⟩
  · rw [if_neg hblk]
    simp only [List.forall_mem_cons, hin, hbound, true_and, ← and_assoc, and_self]
    refine and_congr_right fun hlt => ?_
    by_cases h0 : img.numDataBlks = 0
    · rw [readLoop_noBlocks h0, ← wanted]
      simp only [h0, ne_eq, not_true_eq_false, false_and, imp_false, Nat.not_lt, Nat.le_zero]
    · rw [readLoop_inRange_iff (one_le_of_ne_zero h0) _ _ _ _ _ _ _ rfl hblk (Or.inl ⟨rfl, rfl⟩)
        (hbound.2 hlt), ← wanted]
      refine ⟨fun hstop _ => ⟨h0, hstop⟩, fun h => ?_⟩
      rcases Nat.eq_zero_or_pos (wanted (img.inodes inode.toNat) offset length) with hz | hpos
      · rw [hz]
        exact Or.inl hlt.le
      · exact (h hpos).2

/-- **When `read_data` stays inside its arrays.** -/
theorem read_in_range_iff (img : Image) (inode offset length : UInt32) (buf : Buf) :
    ReadInRange img inode offset length buf ↔ Bounded img inode offset length := by
  rw [Bounded]
  by_cases hnum : img.numInodes = 0
  · exact iff_of_false (not_inRange_of_noInodes hnum _ _ _ _) fun h => h.1 hnum
  · simp only [ne_eq, hnum, not_false_eq_true, true_and]
    by_cases hino : inode < img.numInodes
    · by_cases hoff : offset ≤ (img.inodes inode.toNat).length
      · simp only [hino, hoff, true_imp_iff]
        exact inRange_iff_of_inside length buf hino hoff
      · -- past the end of the file only the length is read
        refine iff_of_true ?_ fun _ hle => absurd hle hoff
        rw [ReadInRange, readDataAccesses, if_neg (inode_ok hino)]
        dsimp only
        rw [if_pos (UInt32.not_le.1 hoff)]
        exact List.forall_mem_singleton.2 (UInt32.lt_iff_toNat_lt.1 hino)
    · refine iff_of_true ?_ fun h => absurd h hino
      rw [ReadInRange, readDataAccesses, if_pos ((inode_refused_iff hnum).2 hino)]
      exact List.forall_mem_nil _

/-- An image with one file of the greatest length, over one data block. -/
def fullImage : Image where
  numDirEntries := 1
  numInodes := 1
  numDataBlks := 1
  dirEntries _ := sampleEntry fishName length_fishName 2 0
  inodes _ := ⟨1023 * 4096, fun _ => 0⟩
  blocks _ _ := 0

/-- A read at the end of the longest file looks at the index entry 1023. -/
theorem read_leaves_index : ¬ReadInRange fullImage 0 (1023 * 4096) 1 (fun _ => 0) := by
  intro hall
  have hmem : Access.dataBlocks 1023
      ∈ (readDataAccesses fullImage 0 (1023 * 4096) (fun _ => 0) 1).2 := by decide +kernel
  exact absurd (hall _ hmem) (Nat.lt_irrefl 1023)

end WnajOS
