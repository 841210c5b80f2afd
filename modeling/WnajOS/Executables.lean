import WnajOS.FileSystem.FilePosition
import WnajOS.FileSystem.Lookup
import WnajOS.Process

/-!
# Which files are executable

`is_valid_exec` looks a name up, reads four bytes into a local array and compares them with the
magic number.  It looks neither at the type of the entry nor at the result of `read_data`, so
that bytes that were not read are those the array held before.
-/

namespace WnajOS

/-- The entry is a regular file that can be read and begins with the magic number. -/
structure RegularElf (img : Image) (d : DirEntry) : Prop where
  regular : d.fileType = 2
  inode : d.inodeNum < img.numInodes
  readable : BlockOk img (img.inodes d.inodeNum.toNat) 0
  length : 4 ≤ (img.inodes d.inodeNum.toNat).length.toNat
  magic : ∀ i < 4, fileByte img (img.inodes d.inodeNum.toNat) i = elfMagic.byteAt i

/-- `is_valid_exec` accepts the name exactly when it is that of a regular executable, whatever
its array held before. -/
def ExecCheckOk (img : Image) (name : Str) : Prop :=
  ∀ buf, (isValidExec img name buf).isSome ↔
    ∃ d, readDentryByName img name = some d ∧ RegularElf img d

/-- How many of the first four bytes of its file `read_data` delivers for an entry. -/
def headBytes (img : Image) (d : DirEntry) : ℕ :=
  if Begins img d.inodeNum 0 then min 4 (img.inodes d.inodeNum.toNat).length.toNat else 0

/-- Four bytes compare equal with the magic number when they are the magic number. -/
lemma strncmp_elfMagic (a b c d : UInt8) :
    strncmp [a, b, c, d] elfMagic 4 = 0 ↔ [a, b, c, d] = elfMagic := by
  rw [strncmp_eq_zero, show cstr (elfMagic.take 4) = elfMagic by decide, List.take_of_length_le
    (by simp)]
  constructor
  · intro h
    have hpre : cstr [a, b, c, d] <+: [a, b, c, d] := List.takeWhile_prefix _
    rw [h] at hpre
    exact (hpre.eq_of_length rfl).symm
  · rintro h
    rw [h]
    decide

section Check

variable (img : Image) {name : Str} {d : DirEntry}

lemma headBytes_le (d : DirEntry) : headBytes img d ≤ 4 := by
  rw [headBytes]
  split
  · exact Nat.min_le_left _ _
  · exact Nat.zero_le _

/-- What the array holds after `read_data`: the bytes delivered, and behind them what it held
before. -/
lemma head_apply (d : DirEntry) (buf : Buf) (i : ℕ) :
    (readData img d.inodeNum 0 buf 4).buf i =
      if i < headBytes img d then fileByte img (img.inodes d.inodeNum.toNat) i else buf i := by
  have hoff : (0 : UInt32) ≤ (img.inodes d.inodeNum.toNat).length :=
    UInt32.le_iff_toNat_le.2 (Nat.zero_le _)
  rw [headBytes]
  by_cases hb : Begins img d.inodeNum 0
  · obtain ⟨m, hm⟩ := readData_of_begins 4 buf hoff hb
    have h4 : (4 : UInt32).toNat = 4 := rfl
    have h0 : (0 : UInt32).toNat = 0 := rfl
    -- the four bytes lie in the first block, so only the end of the file stops the copy
    have hmin : min 4 (img.inodes d.inodeNum.toNat).length.toNat = m := by
      have hinside := hm.le_length
      rcases hm.result with ⟨hmn, -⟩ | ⟨hmn, hend, -⟩ | ⟨hmn, -, hbad, -⟩
      · omega
      · omega
      · refine absurd hb.2 ?_
        rwa [h0, Nat.zero_add, Nat.div_eq_of_lt (by rw [dataBlkSize]; omega)] at hbad
    rw [if_pos hb, hmin]
    by_cases hi : i < m
    · rw [if_pos hi, hm.copied.bytes i hi, h0, Nat.zero_add]
    · rw [if_neg hi, hm.copied.rest i (not_lt.1 hi)]
  · rw [readData_of_not_begins 4 buf hoff hb, if_neg hb, if_neg (Nat.not_lt_zero i)]

/-- The decision on a name that was found. -/
lemma isValidExec_iff (hd : readDentryByName img name = some d) (buf : Buf) :
    (isValidExec img name buf).isSome ↔ ∀ i < 4, (if i < headBytes img d
      then fileByte img (img.inodes d.inodeNum.toNat) i else buf i) = elfMagic.byteAt i := by
  simp only [← head_apply]
  rw [isValidExec, hd]
  dsimp only
  obtain ⟨b, hb⟩ : ∃ b, (readData img d.inodeNum 0 buf 4).buf = b := ⟨_, rfl⟩
  have hmagic : [b 0, b 1, b 2, b 3] = elfMagic ↔ ∀ i < 4, b i = elfMagic.byteAt i := by
    have helf : elfMagic = (List.range 4).map elfMagic.byteAt := by decide
    conv_lhs => rw [show [b 0, b 1, b 2, b 3] = (List.range 4).map b from rfl, helf]
    simp only [List.map_inj_left, List.mem_range]
  rw [hb, ← hmagic, ← strncmp_elfMagic]
  split
  · rename_i hcmp
    exact iff_of_true rfl hcmp
  · rename_i hcmp
    exact iff_of_false (by simp) hcmp

end Check

/-- **When the check of executables is right.**  For every name that is found, one of the bytes
delivered is not that of the magic number, or all four are delivered from a regular file with a
valid inode. -/
theorem exec_check_iff (img : Image) (name : Str) : ExecCheckOk img name ↔
    ∀ d, readDentryByName img name = some d →
      (∃ i < headBytes img d,
        fileByte img (img.inodes d.inodeNum.toNat) i ≠ elfMagic.byteAt i) ∨
      (headBytes img d = 4 ∧ d.fileType = 2 ∧ d.inodeNum < img.numInodes ∧
        BlockOk img (img.inodes d.inodeNum.toNat) 0) := by
  cases hd : readDentryByName img name with
  | none =>
    refine iff_of_true (fun buf => ?_) fun d h => absurd h (by simp)
    rw [isValidExec, hd]
    simp
  | some d =>
    constructor
    · intro h d' hd'
      obtain rfl := Option.some.inj hd'
      by_contra hno
      push Not at hno
      -- with the magic number in the array from before the file is accepted
      have hacc : (isValidExec img name elfMagic.byteAt).isSome := by
        rw [isValidExec_iff img hd]
        intro i _
        split
        · exact hno.1 i ‹_›
        · rfl
      obtain ⟨d', hd', helf⟩ := (h elfMagic.byteAt).1 hacc
      obtain rfl : d = d' := Option.some.inj (hd.symm.trans hd')
      have hbegins : Begins img d.inodeNum 0 := ⟨inode_ok helf.inode, helf.readable.passes⟩
      have hhead : headBytes img d = 4 := by
        rw [headBytes, if_pos hbegins, Nat.min_eq_left helf.length]
      exact hno.2 hhead helf.regular helf.inode helf.readable
    · intro h buf
      have hfound : (∃ d', readDentryByName img name = some d' ∧ RegularElf img d')
          ↔ RegularElf img d := by
        rw [hd]
        simp only [Option.some.injEq, exists_eq_left']
      rw [hfound, isValidExec_iff img hd]
      rcases h d rfl with ⟨i, hi, hne⟩ | ⟨hhead, htype, hino, hblk⟩
      · have hi4 : i < 4 := lt_of_lt_of_le hi (headBytes_le img d)
        refine iff_of_false (fun hall => hne ?_) fun helf => hne (helf.magic i hi4)
        have := hall i hi4
        rwa [if_pos hi] at this
      · have hlen : 4 ≤ (img.inodes d.inodeNum.toNat).length.toNat := by
          rw [headBytes] at hhead
          split at hhead
          · omega
          · exact absurd hhead (by simp)
        rw [hhead]
        constructor
        · intro hall
          refine ⟨htype, hino, hblk, hlen, fun i hi => ?_⟩
          have := hall i hi
          rwa [if_pos hi] at this
        · intro helf i hi
          rw [if_pos hi]
          exact helf.magic i hi

/-- The directory of the small image carries the inode number of the shell, and is accepted. -/
theorem directory_executable : ¬ExecCheckOk sampleImage [46] := by
  intro h
  obtain ⟨d, hd, helf⟩ := (h noBuf).1 (by decide)
  have htype : (readDentryByName sampleImage [46]).map DirEntry.fileType = some 1 := by decide
  rw [hd] at htype
  exact absurd ((Option.some.inj htype).symm.trans helf.regular) (by decide)

end WnajOS
