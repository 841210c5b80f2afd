import WnajOS.FileSystem.Drivers

/-!
# Reading a file from front to back

`read_data` reports a short final read as `0`, and `file_read` rebuilds the count and the new
position from the length of the file.  Over any sequence of reads the two together deliver
the file: this is proved from the specification of one read, by induction on the reads.
-/

namespace WnajOS

/-! ### The contents of a file -/

/-- The bytes of a data block. -/
def blockBytes (img : Image) (b : UInt32) : List UInt8 :=
  (List.range dataBlkSize).map (img.blocks b.toNat)

/-- How many data blocks a file uses. -/
def Inode.usedBlocks (ino : Inode) : ℕ := (ino.length.toNat + (dataBlkSize - 1)) / dataBlkSize

/-- The contents of a file: its data blocks in index order, cut at its length. -/
def contents (img : Image) (ino : Inode) : List UInt8 :=
  ((List.range ino.usedBlocks).flatMap fun j => blockBytes img (ino.dataBlocks j)).take
    ino.length.toNat

lemma flatMap_blocks (img : Image) (ino : Inode) (k : ℕ) :
    (List.range k).flatMap (fun j => blockBytes img (ino.dataBlocks j))
      = (List.range (k * dataBlkSize)).map (fileByte img ino) := by
  induction k with
  | zero => simp
  | succ k ih =>
    have hblock : blockBytes img (ino.dataBlocks k)
        = (List.range dataBlkSize).map fun i => fileByte img ino (k * dataBlkSize + i) := by
      refine List.map_congr_left fun i hi => ?_
      have hi' : i < dataBlkSize := List.mem_range.1 hi
      rw [fileByte, Nat.mul_add_mod_self_right, Nat.mod_eq_of_lt hi', Nat.add_comm,
        Nat.add_mul_div_right _ _ (by decide), Nat.div_eq_of_lt hi', Nat.zero_add]
    rw [List.range_succ, List.flatMap_append, ih, List.flatMap_singleton, hblock,
      Nat.succ_mul, List.range_add, List.map_append, List.map_map]
    rfl

/-- The contents, byte by byte. -/
lemma contents_eq (img : Image) (ino : Inode) :
    contents img ino = (List.range ino.length.toNat).map (fileByte img ino) := by
  have hle : ino.length.toNat ≤ ino.usedBlocks * dataBlkSize := by
    simp only [Inode.usedBlocks, dataBlkSize]
    omega
  rw [contents, flatMap_blocks, ← List.map_take, List.take_range, Nat.min_eq_left hle]

lemma length_contents (img : Image) (ino : Inode) :
    (contents img ino).length = ino.length.toNat := by
  rw [contents_eq, List.length_map, List.length_range]

/-- A prefix of the contents grows by the bytes that follow it. -/
lemma take_contents_add {img : Image} {ino : Inode} {pos m : ℕ}
    (h : pos + m ≤ ino.length.toNat) :
    (contents img ino).take (pos + m) = (contents img ino).take pos
      ++ (List.range m).map fun j => fileByte img ino (pos + j) := by
  rw [contents_eq, ← List.map_take, ← List.map_take, List.take_range, List.take_range,
    Nat.min_eq_left h, Nat.min_eq_left (by omega), List.range_add, List.map_append,
    List.map_map]
  rfl

/-! ### One read -/

/-- A file whose length and index are those of a well-formed image. -/
structure FileOk (img : Image) (ino : Inode) : Prop where
  length_le : ino.length.toNat ≤ inodeDataBlockNum * dataBlkSize
  blocks : ∀ j < ino.usedBlocks, BlockOk img ino j

namespace FileOk

variable {img : Image} {ino : Inode}

lemma passes (h : FileOk img ino) {i : ℕ} (hi : i < ino.length.toNat) :
    BlockPasses img ino (i / dataBlkSize) := by
  refine (h.blocks _ ?_).passes
  simp only [Inode.usedBlocks, dataBlkSize]
  omega

lemma length_lt (h : FileOk img ino) : ino.length.toNat < 2 ^ 31 := by
  have := h.length_le
  simp only [inodeDataBlockNum, dataBlkSize] at this
  omega

end FileOk

/-- What one `file_read` of `m` bytes inside the file does. -/
structure FileReadSpec (img : Image) (ino : Inode) (fds : FdArr) (fd : Int32) (buf : Buf)
    (r : ReadRes) (m : ℕ) : Prop where
  ret : r.ret.toInt = m
  buf : r.buf = buf.put 0 m (fun j => fileByte img ino ((fds (fdIndex fd)).filePos.toNat + j))
  filePos : ((r.fds (fdIndex fd)).filePos.toNat) = (fds (fdIndex fd)).filePos.toNat + m
  entry : r.fds (fdIndex fd) = { fds (fdIndex fd) with filePos := (r.fds (fdIndex fd)).filePos }
  others : ∀ k, k ≠ fdIndex fd → r.fds k = fds k

/-- A read that stores `m` bytes and moves the position of its own entry meets the
specification. -/
lemma FileReadSpec.of_update {img : Image} {ino : Inode} {fds : FdArr} {fd ret : Int32}
    {buf buf' : Buf} {e : FdEntry} {fp : UInt32} {m : ℕ} (he : fds (fdIndex fd) = e)
    (hret : ret.toInt = m)
    (hbuf : buf' = buf.put 0 m (fun j => fileByte img ino (e.filePos.toNat + j)))
    (hfp : fp.toNat = e.filePos.toNat + m) :
    FileReadSpec img ino fds fd buf
      ⟨ret, buf', Function.update fds (fdIndex fd) { e with filePos := fp }⟩ m := by
  subst he
  refine ⟨hret, hbuf, ?_, ?_, fun k hk => Function.update_of_ne hk _ _⟩
  · simpa only [Function.update_self] using hfp
  · simp only [Function.update_self]

/-- Inside a well-formed file `file_read` delivers the wanted bytes, or all that are left. -/
lemma fileRead_spec {img : Image} {fds : FdArr} {fd : Int32} {nbytes : Int32} (buf : Buf)
    (hfd : ¬(fd < 2 ∨ fd ≥ 8)) (hino : (fds (fdIndex fd)).inode < img.numInodes)
    (hfile : FileOk img (img.inodes (fds (fdIndex fd)).inode.toNat)) (hn : 0 < nbytes)
    (hpos : (fds (fdIndex fd)).filePos < (img.inodes (fds (fdIndex fd)).inode.toNat).length) :
    FileReadSpec img (img.inodes (fds (fdIndex fd)).inode.toNat) fds fd buf
      (fileRead img fds fd buf nbytes)
      (min nbytes.toInt.toNat ((img.inodes (fds (fdIndex fd)).inode.toNat).length.toNat
        - (fds (fdIndex fd)).filePos.toNat)) := by
  obtain ⟨e, he⟩ : ∃ e, fds (fdIndex fd) = e := ⟨_, rfl⟩
  obtain ⟨ino, hi⟩ : ∃ ino, img.inodes e.inode.toNat = ino := ⟨_, rfl⟩
  rw [he] at hino hfile hpos ⊢
  rw [hi] at hfile hpos ⊢
  have hpos' : e.filePos.toNat < ino.length.toNat := UInt32.lt_iff_toNat_lt.1 hpos
  have hnz : (0 : ℤ) < nbytes.toInt := by simpa using Int32.lt_iff_toInt_lt.1 hn
  have hnN : (nbytes.toUInt32.toNat : ℤ) = nbytes.toInt :=
    toNat_toUInt32_of_nonneg (Int32.le_of_lt hn)
  have hnlt : nbytes.toInt < 2 ^ 31 := Int32.toInt_lt nbytes
  have hL := hfile.length_lt
  have hoff : e.filePos ≤ (img.inodes e.inode.toNat).length := by
    rw [hi]
    exact UInt32.le_of_lt hpos
  have hblk : BlockPasses img (img.inodes e.inode.toNat) (e.filePos.toNat / dataBlkSize) := by
    rw [hi]
    exact hfile.passes hpos'
  obtain ⟨m, hm⟩ : ∃ m, ReadSpec img ino nbytes.toUInt32 nbytes.toUInt32.toNat e.filePos.toNat 0
      buf (readData img e.inode e.filePos buf nbytes.toUInt32) m := by
    rw [← hi]
    exact readData_of_begins _ _ hoff ⟨inode_ok hino, hblk⟩
  rcases hm.result with ⟨hmn, hret⟩ | ⟨hmn, hend, hret⟩ | ⟨-, hin, hbad, -⟩
  · -- all the bytes asked for
    have hle : e.filePos.toNat + m ≤ ino.length.toNat := by
      have := hm.inside (m - 1) (by omega)
      omega
    have hret' : (readData img e.inode e.filePos buf nbytes.toUInt32).ret.toUInt32
        = nbytes.toUInt32 := by rw [hret, UInt32.toUInt32_toInt32]
    have hne : (readData img e.inode e.filePos buf nbytes.toUInt32).ret.toUInt32 ≠ 0 := by
      rw [hret']
      intro h0
      rw [h0] at hnN
      simp at hnN
      omega
    have hmin : min nbytes.toInt.toNat (ino.length.toNat - e.filePos.toNat) = m := by omega
    rw [hmin, fileRead_full hfd (by rw [he]) hne, he]
    have hfp : (e.filePos + nbytes.toUInt32).toNat = e.filePos.toNat + m := by
      rw [UInt32.toNat_add, Nat.mod_eq_of_lt (by omega), hmn]
    refine FileReadSpec.of_update he ?_ hm.bytes hfp
    rw [hret', toInt_toInt32_of_lt (by omega)]
    omega
  · -- the end of the file comes first
    have hm0 : 0 < m := by omega
    have hle : e.filePos.toNat + m = ino.length.toNat := by
      have := hm.inside (m - 1) (by omega)
      omega
    have hmin : min nbytes.toInt.toNat (ino.length.toNat - e.filePos.toNat) = m := by omega
    have hsub : (ino.length - e.filePos).toNat = m := by
      rw [UInt32.toNat_sub_of_le _ _ (UInt32.le_of_lt hpos)]
      omega
    rw [hmin, fileRead_eof hfd (by rw [he]) (by rw [hret]; rfl), he, hi]
    have hfp : (e.filePos + (ino.length - e.filePos)).toNat = e.filePos.toNat + m := by
      rw [UInt32.toNat_add, hsub, Nat.mod_eq_of_lt (by omega)]
    refine FileReadSpec.of_update he ?_ hm.bytes hfp
    rw [toInt_toInt32_of_lt (by omega), hsub]
  · exact absurd (hfile.passes hin) hbad

/-! ### Any sequence of reads -/

/-- One read of a sequence: the size asked for, the buffer and position before it, and its
result. -/
structure Delivery where
  nbytes : Int32
  buf : Buf
  filePos : UInt32
  res : ReadRes

/-- The bytes a read delivered. -/
def Delivery.bytes (d : Delivery) : List UInt8 := (List.range d.res.ret.toInt.toNat).map d.res.buf

/-- `Reads img fd fds ds fds'`: from `fds`, the reads `ds` of positive sizes, each issued
while the position is below the length of the file, lead to `fds'`. -/
inductive Reads (img : Image) (fd : Int32) (fds : FdArr) : List Delivery → FdArr → Prop
  | nil : Reads img fd fds [] fds
  | snoc {ds : List Delivery} {fds' : FdArr} (h : Reads img fd fds ds fds')
      (buf : Buf) (nbytes : Int32) (hn : 0 < nbytes)
      (hpos : (fds' (fdIndex fd)).filePos
        < (img.inodes (fds' (fdIndex fd)).inode.toNat).length) :
      Reads img fd fds
        (ds ++ [⟨nbytes, buf, (fds' (fdIndex fd)).filePos, fileRead img fds' fd buf nbytes⟩])
        (fileRead img fds' fd buf nbytes).fds

/-- The sum of the counts that reads returned. -/
def counts (ds : List Delivery) : ℤ := (ds.map fun d => d.res.ret.toInt).sum

/-- A read of the sequence, after the reads `before`, delivers the wanted bytes, or those that
are left: its count, its position and the bytes of its buffer. -/
structure Delivery.Ok (img : Image) (ino : Inode) (before : List Delivery) (d : Delivery) :
    Prop where
  count : d.res.ret.toInt = min d.nbytes.toInt (ino.length.toNat - d.filePos.toNat)
  filePos : (d.filePos.toNat : ℤ) = counts before
  buf : d.res.buf = d.buf.put 0 d.res.ret.toInt.toNat
    (fun j => (contents img ino).getD (d.filePos.toNat + j) 0)

/-- The state after the reads `ds`: each of them delivered its bytes, the position is the sum
of the counts, and all that was delivered is the front of the file's contents. -/
structure Delivered (img : Image) (ino : Inode) (fds fds' : FdArr) (fd : Int32)
    (ds : List Delivery) : Prop where
  each : ∀ before d after, ds = before ++ d :: after → d.Ok img ino before
  filePos : ((fds' (fdIndex fd)).filePos.toNat : ℤ) = counts ds
  inside : (fds' (fdIndex fd)).filePos ≤ ino.length
  delivered : ds.flatMap Delivery.bytes
    = (contents img ino).take (fds' (fdIndex fd)).filePos.toNat
  entry : fds' (fdIndex fd)
    = { fds (fdIndex fd) with filePos := (fds' (fdIndex fd)).filePos }
  others : ∀ k, k ≠ fdIndex fd → fds' k = fds k

section Sequence

variable {img : Image} {ino : Inode} {fds fds' : FdArr} {fd : Int32} {ds : List Delivery}

lemma Delivered.nil (hpos : (fds (fdIndex fd)).filePos = 0) :
    Delivered img ino fds fds fd [] := by
  refine ⟨fun before d after heq => absurd heq.symm (by simp), ?_, ?_, ?_, rfl, fun _ _ => rfl⟩
  · rw [hpos]
    rfl
  · rw [hpos]
    exact UInt32.le_iff_toNat_le.2 (Nat.zero_le _)
  · rw [hpos]
    rfl

/-- A byte inside the file, read off the contents. -/
lemma getD_contents {i : ℕ} (h : i < ino.length.toNat) :
    (contents img ino).getD i 0 = fileByte img ino i := by
  rw [contents_eq, List.getD_eq_getElem _ _ (by simpa using h), List.getElem_map,
    List.getElem_range]

/-- One more read. -/
lemma Delivered.snoc {nbytes : Int32} {buf : Buf} {r : ReadRes} {m : ℕ}
    (h : Delivered img ino fds fds' fd ds) (hn : 0 < nbytes.toInt)
    (hm : m = min nbytes.toInt.toNat (ino.length.toNat - (fds' (fdIndex fd)).filePos.toNat))
    (hr : FileReadSpec img ino fds' fd buf r m) :
    Delivered img ino fds r.fds fd
      (ds ++ [⟨nbytes, buf, (fds' (fdIndex fd)).filePos, r⟩]) := by
  have hin : (fds' (fdIndex fd)).filePos.toNat ≤ ino.length.toNat :=
    UInt32.le_iff_toNat_le.1 h.inside
  have hret : r.ret.toInt.toNat = m := by rw [hr.ret]; rfl
  have hbyte : ∀ j < m, (contents img ino).getD ((fds' (fdIndex fd)).filePos.toNat + j) 0
      = fileByte img ino ((fds' (fdIndex fd)).filePos.toNat + j) :=
    fun j hj => getD_contents (by omega)
  refine ⟨?_, ?_, ?_, ?_, ?_, ?_⟩
  · intro before d after heq
    rcases after.eq_nil_or_concat with rfl | ⟨after, d', rfl⟩
    · -- the last read
      obtain ⟨rfl, hd⟩ := List.append_inj' heq rfl
      obtain rfl := List.cons.inj hd |>.1
      refine ⟨?_, h.filePos, ?_⟩
      · rw [hr.ret]
        dsimp only
        omega
      · dsimp only
        rw [hr.buf, hret]
        funext i
        by_cases hi : i < m
        · rw [Buf.put_of_lt hi, Buf.put_of_lt hi, hbyte i hi]
        · rw [Buf.put_of_ge (by omega), Buf.put_of_ge (by omega)]
    · -- an earlier one
      rw [List.concat_eq_append, ← List.cons_append, ← List.append_assoc] at heq
      exact h.each before d after (List.append_inj' heq rfl).1
  · rw [hr.filePos, counts, List.map_append, List.sum_append, ← counts, ← h.filePos,
      List.map_singleton, List.sum_singleton, hr.ret, Nat.cast_add]
  · rw [UInt32.le_iff_toNat_le, hr.filePos]
    omega
  · have hbytes : Delivery.bytes ⟨nbytes, buf, (fds' (fdIndex fd)).filePos, r⟩
        = (List.range m).map fun j =>
          fileByte img ino ((fds' (fdIndex fd)).filePos.toNat + j) := by
      rw [Delivery.bytes, hret]
      refine List.map_congr_left fun j hj => ?_
      rw [hr.buf, Buf.put_of_lt (List.mem_range.1 hj)]
    rw [List.flatMap_append, h.delivered, List.flatMap_singleton, hbytes, hr.filePos,
      take_contents_add (by omega)]
  · rw [hr.entry, h.entry]
  · intro k hk
    rw [hr.others k hk, h.others k hk]

/-- Every sequence of reads from a fresh descriptor is a delivery of the file. -/
lemma Reads.delivered (hfd : ¬(fd < 2 ∨ fd ≥ 8))
    (hino : (fds (fdIndex fd)).inode < img.numInodes)
    (hfile : FileOk img (img.inodes (fds (fdIndex fd)).inode.toNat))
    (hfresh : (fds (fdIndex fd)).filePos = 0) (h : Reads img fd fds ds fds') :
    Delivered img (img.inodes (fds (fdIndex fd)).inode.toNat) fds fds' fd ds := by
  induction h with
  | nil => exact Delivered.nil hfresh
  | @snoc ds fds' _ buf nbytes hn hpos ih =>
    have hsame : (fds' (fdIndex fd)).inode = (fds (fdIndex fd)).inode := by rw [ih.entry]
    have hn' : 0 < nbytes.toInt := by simpa using Int32.lt_iff_toInt_lt.1 hn
    have hr := fileRead_spec buf hfd (hsame ▸ hino) (hsame ▸ hfile) hn hpos
    rw [hsame] at hr
    exact ih.snoc hn' rfl hr

end Sequence

/-- **Sequential reads deliver the file.**  Whatever the sizes of the reads and however they
fall on the block boundaries, each read returns `min (nbytes, L - file_pos)` and the bytes of
the file at its position, the position is the sum of the counts, and the bytes delivered so
far are the contents up to it; at `file_pos = L` they are the contents. -/
theorem sequential_reads_deliver (img : Image) (fd : Int32) (fds fds' : FdArr)
    (ds : List Delivery) (hfd : 2 ≤ fd ∧ fd < 8)
    (hino : (fds (fdIndex fd)).inode < img.numInodes)
    (hlen : (img.inodes (fds (fdIndex fd)).inode.toNat).length.toNat ≤ 1023 * 4096)
    (hblocks : ∀ j < (img.inodes (fds (fdIndex fd)).inode.toNat).usedBlocks,
      BlockOk img (img.inodes (fds (fdIndex fd)).inode.toNat) j)
    (hfresh : (fds (fdIndex fd)).filePos = 0) (h : Reads img fd fds ds fds') :
    Delivered img (img.inodes (fds (fdIndex fd)).inode.toNat) fds fds' fd ds ∧
      ((fds' (fdIndex fd)).filePos = (img.inodes (fds (fdIndex fd)).inode.toNat).length →
        ds.flatMap Delivery.bytes = contents img (img.inodes (fds (fdIndex fd)).inode.toNat)) := by
  have hd := h.delivered (fd_inRange hfd) hino ⟨hlen, hblocks⟩ hfresh
  refine ⟨hd, fun hend => ?_⟩
  rw [hd.delivered, hend, ← length_contents img, List.take_length]

/-- A descriptor array with the text file of the small image freshly opened at 2. -/
def sampleFds : FdArr := fun _ => ⟨some .file, 1, 0, 1⟩

/-- Two reads, the second over the end of the first block. -/
theorem sequential_reads_deliver_fish :
    Delivered sampleImage (sampleImage.inodes 1) sampleFds
      (fileRead sampleImage (fileRead sampleImage sampleFds 2 (fun _ => 0) 2).fds 2
        (fun _ => 0) 4095).fds 2
      [⟨2, fun _ => 0, 0, fileRead sampleImage sampleFds 2 (fun _ => 0) 2⟩,
        ⟨4095, fun _ => 0, 2, fileRead sampleImage
          (fileRead sampleImage sampleFds 2 (fun _ => 0) 2).fds 2 (fun _ => 0) 4095⟩] :=
  (sequential_reads_deliver sampleImage 2 sampleFds _ _ (by decide) (by decide) (by decide)
    (by decide) rfl
    (((Reads.nil.snoc (fun _ => 0) 2 (by decide) (by decide)).snoc (fun _ => 0) 4095
      (by decide) (by decide)))).1

end WnajOS
