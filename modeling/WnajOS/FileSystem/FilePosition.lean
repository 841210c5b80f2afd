import WnajOS.Library.Reader
import WnajOS.FileSystem.Accesses
import WnajOS.FileSystem.Sequential

/-!
# The file position

`file_read` moves the position by what it believes was read.  A failed `read_data` returns -1,
which is a large number in the unsigned variable it is stored in, and so the position moves by
the number of bytes asked for; a short read is told from an empty one only by the length that
is left.  When the position and the result tell the truth, and when the end of a file is
reported as such, is worked out below for every image.
-/

namespace WnajOS

/-! ### Position accounting -/

/-- The read leaves the position alone if it returns -1, and moves it by its result, which is
the number of bytes copied, if that is not negative; the position stays inside the file. -/
structure Accounts (img : Image) (fds : FdArr) (fd : Int32) (buf : Buf) (nbytes : Int32) :
    Prop where
  failed : (fileRead img fds fd buf nbytes).ret = -1 →
    ((fileRead img fds fd buf nbytes).fds (fdIndex fd)).filePos = (fds (fdIndex fd)).filePos
  moved : 0 ≤ (fileRead img fds fd buf nbytes).ret →
    (((fileRead img fds fd buf nbytes).fds (fdIndex fd)).filePos.toNat : ℤ)
        = (fds (fdIndex fd)).filePos.toNat + (fileRead img fds fd buf nbytes).ret.toInt ∧
      (fileRead img fds fd buf nbytes).ret.toInt = (readData img (fds (fdIndex fd)).inode
        (fds (fdIndex fd)).filePos buf nbytes.toUInt32).bufCounter
  inside : ((fileRead img fds fd buf nbytes).fds (fdIndex fd)).filePos
    ≤ (img.inodes (fds (fdIndex fd)).inode.toNat).length

/-- The reads of `n` bytes that account for the position: a read of some bytes gets to its
copy loop, and then every block of its range passes the check; a read of no bytes does not get
there, or finds the end of the file, or so much of the file left that the result is negative
without being -1. -/
def Accountable (img : Image) (e : FdEntry) (n : ℕ) : Prop :=
  let ino := img.inodes e.inode.toNat
  let left := ino.length.toNat - e.filePos.toNat
  if n = 0 then ¬Begins img e.inode e.filePos ∨ left = 0 ∨ 2 ^ 31 ≤ left ∧ left < 2 ^ 32 - 1
  else Begins img e.inode e.filePos ∧
    ∀ i < min n left, BlockPasses img ino ((e.filePos.toNat + i) / dataBlkSize)

/-- A read whose result, buffer and position are known. -/
lemma accounts_iff {img : Image} {fds : FdArr} {fd nbytes ret : Int32} {buf buf' : Buf}
    {e : FdEntry} {pos : UInt32} (he : fds (fdIndex fd) = e)
    (h : fileRead img fds fd buf nbytes
      = ⟨ret, buf', Function.update fds (fdIndex fd) { e with filePos := pos }⟩) :
    Accounts img fds fd buf nbytes ↔ (ret = -1 → pos = e.filePos) ∧
      (0 ≤ ret → (pos.toNat : ℤ) = e.filePos.toNat + ret.toInt ∧
        ret.toInt = (readData img e.inode e.filePos buf nbytes.toUInt32).bufCounter) ∧
      pos ≤ (img.inodes e.inode.toNat).length := by
  subst he
  constructor
  · rintro ⟨hfailed, hmoved, hinside⟩
    rw [h] at hfailed hmoved hinside
    simp only [Function.update_self] at hfailed hmoved hinside
    exact ⟨hfailed, hmoved, hinside⟩
  · rintro ⟨hfailed, hmoved, hinside⟩
    refine ⟨?_, ?_, ?_⟩
    · simpa only [h, Function.update_self] using hfailed
    · simpa only [h, Function.update_self] using hmoved
    · simpa only [h, Function.update_self] using hinside

section Accounting

variable {img : Image} {fds : FdArr} {fd : Int32} {buf : Buf} {nbytes : Int32} {e : FdEntry}
variable (hfd : ¬(fd < 2 ∨ fd ≥ 8)) (he : fds (fdIndex fd) = e)
variable (hpos : e.filePos ≤ (img.inodes e.inode.toNat).length) (hn : 0 ≤ nbytes)

include hfd he

/-- A failed `read_data` lets the position move by the bytes asked for. -/
lemma fileRead_failed (hret : (readData img e.inode e.filePos buf nbytes.toUInt32).ret = -1) :
    fileRead img fds fd buf nbytes = ⟨-1, (readData img e.inode e.filePos buf nbytes.toUInt32).buf,
      Function.update fds (fdIndex fd) { e with filePos := e.filePos + nbytes.toUInt32 }⟩ := by
  subst he
  rw [fileRead_full hfd rfl (by rw [hret]; decide), hret]
  rfl

include hn

/-- A failed read of some bytes moves the position. -/
lemma not_accounts_of_failed (h0 : nbytes.toInt ≠ 0)
    (hret : (readData img e.inode e.filePos buf nbytes.toUInt32).ret = -1) :
    ¬Accounts img fds fd buf nbytes := by
  rw [accounts_iff he (fileRead_failed hfd he hret)]
  rintro ⟨hfailed, -⟩
  have hnat : (e.filePos + nbytes.toUInt32).toNat = e.filePos.toNat := by rw [hfailed rfl]
  have hnN : (nbytes.toUInt32.toNat : ℤ) = nbytes.toInt := toNat_toUInt32_of_nonneg hn
  have hlt : nbytes.toInt < 2 ^ 31 := Int32.toInt_lt nbytes
  have hlt' : e.filePos.toNat < 2 ^ 32 := UInt32.toNat_lt _
  rw [UInt32.toNat_add] at hnat
  omega

include hpos

/-- Before the copy loop only a read of no bytes fails without moving the position. -/
lemma accounts_of_not_begins (h : ¬Begins img e.inode e.filePos) :
    Accounts img fds fd buf nbytes ↔ nbytes.toInt = 0 := by
  have hret : (readData img e.inode e.filePos buf nbytes.toUInt32).ret = -1 := by
    rw [readData_of_not_begins _ _ hpos h]
  constructor
  · intro hacc
    by_contra h0
    exact not_accounts_of_failed hfd he hn h0 hret hacc
  · intro h0
    have hzero : nbytes = 0 := Int32.toInt_inj.1 h0
    subst hzero
    rw [accounts_iff he (fileRead_failed hfd he hret)]
    have hsame : e.filePos + (0 : Int32).toUInt32 = e.filePos := by
      rw [show (0 : Int32).toUInt32 = 0 from rfl, UInt32.add_zero]
    rw [hsame]
    exact ⟨fun _ => rfl, fun h => absurd h (by decide), hpos⟩

omit hn in
/-- A read of no bytes that gets to the copy loop takes the position to the end. -/
lemma accounts_of_zero (h : Begins img e.inode e.filePos) (h0 : nbytes = 0) :
    Accounts img fds fd buf nbytes ↔
      (img.inodes e.inode.toNat).length.toNat - e.filePos.toNat = 0 ∨
        2 ^ 31 ≤ (img.inodes e.inode.toNat).length.toNat - e.filePos.toNat ∧
          (img.inodes e.inode.toNat).length.toNat - e.filePos.toNat < 2 ^ 32 - 1 := by
  subst h0
  obtain ⟨ino, hi⟩ : ∃ ino, img.inodes e.inode.toNat = ino := ⟨_, rfl⟩
  have hrd : readData img e.inode e.filePos buf (0 : Int32).toUInt32 = ⟨0, buf, 0⟩ :=
    readData_nothing _ buf hpos h (Or.inl rfl)
  subst he
  rw [accounts_iff rfl (fileRead_eof hfd hrd rfl), hrd]
  rw [hi] at hpos ⊢
  have hle : (fds (fdIndex fd)).filePos.toNat ≤ ino.length.toNat := UInt32.le_iff_toNat_le.1 hpos
  have hleft : (ino.length - (fds (fdIndex fd)).filePos).toNat
      = ino.length.toNat - (fds (fdIndex fd)).filePos.toNat := UInt32.toNat_sub_of_le _ _ hpos
  have hend : (fds (fdIndex fd)).filePos + (ino.length - (fds (fdIndex fd)).filePos)
      = ino.length := by rw [UInt32.add_comm, UInt32.sub_add_cancel]
  have hint : (ino.length - (fds (fdIndex fd)).filePos).toInt32.toInt
      = if 2 * (ino.length - (fds (fdIndex fd)).filePos).toNat < 2 ^ 32
        then ((ino.length - (fds (fdIndex fd)).filePos).toNat : ℤ)
        else (ino.length - (fds (fdIndex fd)).filePos).toNat - (2 ^ 32 : ℕ) :=
    BitVec.toInt_eq_toNat_cond _
  have hlt : ino.length.toNat < 2 ^ 32 := UInt32.toNat_lt _
  rw [hend, ← Int32.toInt_inj, Int32.le_iff_toInt_le, ← UInt32.toNat_inj, hint, hleft]
  rw [show (-1 : Int32).toInt = -1 from rfl, show (0 : Int32).toInt = 0 from rfl]
  simp only [UInt32.le_refl, and_true]
  split
  · omega
  · omega

/-- A read of some bytes accounts for the position when no block of its range is refused. -/
lemma accounts_of_pos (h : Begins img e.inode e.filePos) (h0 : nbytes.toInt ≠ 0) :
    Accounts img fds fd buf nbytes ↔
      ∀ i < min nbytes.toInt.toNat
        ((img.inodes e.inode.toNat).length.toNat - e.filePos.toNat),
        BlockPasses img (img.inodes e.inode.toNat) ((e.filePos.toNat + i) / dataBlkSize) := by
  obtain ⟨ino, hi⟩ : ∃ ino, img.inodes e.inode.toNat = ino := ⟨_, rfl⟩
  obtain ⟨m, hm⟩ := readData_of_begins nbytes.toUInt32 buf hpos h
  rw [hi] at hm ⊢
  have hnN : (nbytes.toUInt32.toNat : ℤ) = nbytes.toInt := toNat_toUInt32_of_nonneg hn
  have hnlt : nbytes.toInt < 2 ^ 31 := Int32.toInt_lt nbytes
  have hle : e.filePos.toNat ≤ ino.length.toNat := by
    rw [← hi]
    exact UInt32.le_iff_toNat_le.1 hpos
  have hinside := hm.le_length
  have hlen : ino.length.toNat < 2 ^ 32 := UInt32.toNat_lt _
  rcases hm.result with ⟨hmn, hret⟩ | ⟨hmn, hend, hret⟩ | ⟨hmn, hin, hbad, hret⟩
  · -- all the bytes asked for
    have hret' : (readData img e.inode e.filePos buf nbytes.toUInt32).ret = nbytes := by
      rw [hret, Int32.toInt32_toUInt32]
    have hne : (readData img e.inode e.filePos buf nbytes.toUInt32).ret.toUInt32 ≠ 0 := by
      rw [hret']
      intro hz
      rw [hz] at hnN
      simp at hnN
      omega
    have hfp : (e.filePos + nbytes.toUInt32).toNat = e.filePos.toNat + m := by
      rw [UInt32.toNat_add, Nat.mod_eq_of_lt (by omega), hmn]
    refine iff_of_true ?_ fun i hi' => hm.passes i (by omega)
    subst he
    rw [accounts_iff rfl (fileRead_full hfd rfl hne), hret', hm.counter, hi,
      Int32.toInt32_toUInt32, UInt32.le_iff_toNat_le, hfp]
    refine ⟨fun hneg => ?_, fun _ => ⟨by omega, by omega⟩, by omega⟩
    rw [hneg] at hn
    exact absurd hn (by decide)
  · -- the end of the file comes first
    have hsub : (ino.length - e.filePos).toNat = m := by
      rw [UInt32.toNat_sub_of_le _ _ (UInt32.le_iff_toNat_le.2 hle)]
      omega
    have hfp : e.filePos + (ino.length - e.filePos) = ino.length := by
      rw [UInt32.add_comm, UInt32.sub_add_cancel]
    have hint : (ino.length - e.filePos).toInt32.toInt = m := by
      rw [toInt_toInt32_of_lt (by omega), hsub]
    refine iff_of_true ?_ fun i hi' => hm.passes i (by omega)
    subst he
    rw [accounts_iff rfl (fileRead_eof hfd rfl (by rw [hret]; rfl)), hm.counter, hi, hfp, hint]
    refine ⟨fun hneg => ?_, fun _ => ⟨by omega, by omega⟩, UInt32.le_refl _⟩
    rw [hneg] at hint
    exact absurd hint (by simp)
  · -- a block of the range is refused
    refine iff_of_false (not_accounts_of_failed hfd he hn h0 hret) fun hall => ?_
    exact hbad (hall m (by omega))

end Accounting

/-- **When `file_read` accounts for the position.** -/
theorem file_read_accounts_iff (img : Image) (fds : FdArr) (fd : Int32) (buf : Buf)
    (nbytes : Int32) (hfd : 2 ≤ fd ∧ fd < 8)
    (hpos : (fds (fdIndex fd)).filePos
      ≤ (img.inodes (fds (fdIndex fd)).inode.toNat).length) (hn : 0 ≤ nbytes) :
    Accounts img fds fd buf nbytes ↔
      Accountable img (fds (fdIndex fd)) nbytes.toInt.toNat := by
  have hrange := fd_inRange hfd
  have hnn : (0 : ℤ) ≤ nbytes.toInt := Int32.le_iff_toInt_le.1 hn
  rw [Accountable]
  by_cases hb : Begins img (fds (fdIndex fd)).inode (fds (fdIndex fd)).filePos
  · by_cases h0 : nbytes = 0
    · subst h0
      rw [accounts_of_zero hrange rfl hpos hb rfl, if_pos (show (Int32.toInt 0).toNat = 0 from rfl)]
      simp only [hb, not_true_eq_false, false_or]
    · have h0' : nbytes.toInt ≠ 0 := fun hz => h0 (Int32.toInt_inj.1 hz)
      rw [accounts_of_pos hrange rfl hpos hn hb h0', if_neg (by omega)]
      simp only [hb, true_and]
  · rw [accounts_of_not_begins hrange rfl hpos hn hb]
    by_cases h0 : nbytes.toInt = 0
    · rw [if_pos (by omega)]
      exact iff_of_true h0 (Or.inl hb)
    · rw [if_neg (by omega)]
      exact iff_of_false h0 fun h => hb h.1

/-- Three bytes of the text file of the small image. -/
theorem file_read_accounts_iff_fish :
    Accounts sampleImage sampleFds 2 (fun _ => 0) 3 ↔ Accountable sampleImage (sampleFds 2) 3 :=
  file_read_accounts_iff sampleImage sampleFds 2 (fun _ => 0) 3 (by decide) (by decide) (by decide)

/-- A read of no bytes at the front of the text file returns its length. -/
theorem empty_read_returns_length : ¬Accounts sampleImage sampleFds 2 (fun _ => 0) 0 :=
  fun h => absurd (h.moved (by decide)).2 (by decide)

/-! ### The end of a file -/

/-- The reads of a loop, the `k`-th into the buffer `(args k).1` of `(args k).2` bytes. -/
def fileReader (img : Image) (fd : Int32) (args : ℕ → Buf × Int32) (k : ℕ) (fds : FdArr) :
    ReadRes × FdArr :=
  (fileRead img fds fd (args k).1 (args k).2, (fileRead img fds fd (args k).1 (args k).2).fds)

/-- The descriptor `fd` of a table stands for the file `inode` and its position is inside. -/
structure Positioned (img : Image) (fd : Int32) (inode : UInt32) (fds : FdArr) : Prop where
  file : (fds (fdIndex fd)).inode = inode
  inside : (fds (fdIndex fd)).filePos ≤ (img.inodes inode.toNat).length

/-- The end of the file `inode` is reported as such to the descriptor `fd`. -/
structure EndsCleanly (img : Image) (fd : Int32) (inode : UInt32) : Prop where
  /-- from the end on every read returns 0, stores nothing and leaves the position there -/
  stays : ∀ fds (args : ℕ → Buf × Int32), Positioned img fd inode fds →
    (fds (fdIndex fd)).filePos = (img.inodes inode.toNat).length → (∀ k, 0 < (args k).2) →
    ∀ k, (Reader.result (fileReader img fd args) fds k).ret = 0 ∧
      (Reader.result (fileReader img fd args) fds k).buf = (args k).1 ∧
      ((Reader.result (fileReader img fd args) fds k).fds (fdIndex fd)).filePos
        = (img.inodes inode.toNat).length
  /-- a loop that reads until it gets a 0 gets one, and positive counts before -/
  loop : ∀ fds (args : ℕ → Buf × Int32), Positioned img fd inode fds → (∀ k, 0 < (args k).2) →
    ∃ k, (Reader.result (fileReader img fd args) fds k).ret = 0 ∧
      ∀ j < k, 0 < (Reader.result (fileReader img fd args) fds j).ret

section EndOfFile

variable {img : Image} {fd : Int32} {inode : UInt32} {fds : FdArr} {nbytes : Int32}

/-- At the end of a file, with the index entry of the end passing the check, a read does
nothing. -/
lemma fileRead_at_end (buf : Buf) (hfd : ¬(fd < 2 ∨ fd ≥ 8)) (hino : inode < img.numInodes)
    (h : Positioned img fd inode fds)
    (hend : (fds (fdIndex fd)).filePos = (img.inodes inode.toNat).length)
    (hpass : BlockPasses img (img.inodes inode.toNat)
      ((img.inodes inode.toNat).length.toNat / dataBlkSize)) :
    fileRead img fds fd buf nbytes = ⟨0, buf, fds⟩ := by
  have hrd : readData img (fds (fdIndex fd)).inode (fds (fdIndex fd)).filePos buf nbytes.toUInt32
      = ⟨0, buf, 0⟩ := by
    rw [h.file, hend]
    exact readData_nothing _ _ (UInt32.le_refl _) ⟨inode_ok hino, hpass⟩ (Or.inr rfl)
  rw [fileRead_eof hfd hrd rfl, h.file, hend, UInt32.sub_self, UInt32.add_zero, ← hend,
    Function.update_eq_self]
  rfl

/-- Before the end of a well-formed file a read returns a positive count and moves on. -/
lemma fileRead_before_end (buf : Buf) (hfd : ¬(fd < 2 ∨ fd ≥ 8)) (hino : inode < img.numInodes)
    (hfile : FileOk img (img.inodes inode.toNat)) (h : Positioned img fd inode fds)
    (hlt : (fds (fdIndex fd)).filePos < (img.inodes inode.toNat).length) (hn : 0 < nbytes) :
    0 < (fileRead img fds fd buf nbytes).ret ∧
      Positioned img fd inode (fileRead img fds fd buf nbytes).fds ∧
      (fds (fdIndex fd)).filePos.toNat
        < ((fileRead img fds fd buf nbytes).fds (fdIndex fd)).filePos.toNat := by
  have hnz : (0 : ℤ) < nbytes.toInt := by simpa using Int32.lt_iff_toInt_lt.1 hn
  have hlt' := UInt32.lt_iff_toNat_lt.1 hlt
  have hr := fileRead_spec buf hfd (by rwa [h.file]) (by rwa [h.file]) hn (by rwa [h.file])
  rw [h.file] at hr
  refine ⟨?_, ⟨?_, ?_⟩, ?_⟩
  · rw [Int32.lt_iff_toInt_lt, hr.ret]
    simp only [Int32.toInt_zero]
    omega
  · rw [hr.entry]
    exact h.file
  · rw [UInt32.le_iff_toNat_le, hr.filePos]
    omega
  · rw [hr.filePos]
    omega

/-- Where the index entry of the end does not pass the check, a read at the end fails. -/
lemma not_endsCleanly (hfd : ¬(fd < 2 ∨ fd ≥ 8))
    (hbad : ¬BlockPasses img (img.inodes inode.toNat)
      ((img.inodes inode.toNat).length.toNat / dataBlkSize)) : ¬EndsCleanly img fd inode := by
  intro h
  have hzero := (h.stays (fun _ => ⟨some .file, inode, (img.inodes inode.toNat).length, 1⟩)
    (fun _ => (fun _ => 0, 1)) ⟨rfl, UInt32.le_refl _⟩ rfl (fun _ => by decide) 0).1
  have hrd : (readData img inode (img.inodes inode.toNat).length (fun _ => 0)
      (1 : Int32).toUInt32).ret = -1 := by
    rw [readData_of_not_begins _ _ (UInt32.le_refl _) fun h => hbad h.2]
  rw [Reader.result, Reader.state_zero, fileReader] at hzero
  dsimp only at hzero
  rw [fileRead_failed hfd rfl hrd] at hzero
  exact absurd (show (-1 : Int32) = 0 from hzero) (by decide)

end EndOfFile

/-- **When the end of a file is reported as such.**  The unused index entries are arbitrary;
the one that a read at the end looks at is unused when the length is a multiple of 4096. -/
theorem end_of_file_iff (img : Image) (fd : Int32) (inode : UInt32) (hfd : 2 ≤ fd ∧ fd < 8)
    (hino : inode < img.numInodes)
    (hlen : (img.inodes inode.toNat).length.toNat ≤ 1023 * 4096)
    (hblocks : ∀ j < (img.inodes inode.toNat).usedBlocks, BlockOk img (img.inodes inode.toNat) j) :
    EndsCleanly img fd inode ↔
      (img.inodes inode.toNat).length.toNat % 4096 ≠ 0 ∨
        BlockPasses img (img.inodes inode.toNat)
          ((img.inodes inode.toNat).length.toNat / 4096) := by
  have hrange := fd_inRange hfd
  have hfile : FileOk img (img.inodes inode.toNat) := ⟨hlen, hblocks⟩
  constructor
  · intro h
    by_contra hno
    push Not at hno
    exact not_endsCleanly hrange hno.2 h
  · intro hcond
    have hpass : BlockPasses img (img.inodes inode.toNat)
        ((img.inodes inode.toNat).length.toNat / dataBlkSize) := by
      rcases hcond with hmod | hpass
      · -- the end lies in the last used block
        have hlast := hfile.passes
          (show (img.inodes inode.toNat).length.toNat - 1 < _ by omega)
        rw [dataBlkSize] at hlast ⊢
        rwa [show (img.inodes inode.toNat).length.toNat / 4096
          = ((img.inodes inode.toNat).length.toNat - 1) / 4096 by omega]
      · exact hpass
    refine ⟨fun fds args hfds hend hargs k => ?_, fun fds args hfds hargs => ?_⟩
    · have hstate : Reader.state (fileReader img fd args) fds k = fds := by
        refine Reader.invariant (P := fun _ fds' => fds' = fds) rfl (fun k fds' h => ?_) k
        rw [h, fileReader, fileRead_at_end _ hrange hino hfds hend hpass]
      rw [Reader.result, hstate, fileReader,
        fileRead_at_end _ hrange hino hfds hend hpass]
      exact ⟨rfl, rfl, hend⟩
    · have hstep (k : ℕ) (fds' : FdArr) (h : Positioned img fd inode fds') :
          Positioned img fd inode (fileReader img fd args k fds').2 := by
        by_cases hend : (fds' (fdIndex fd)).filePos = (img.inodes inode.toNat).length
        · rw [fileReader, fileRead_at_end _ hrange hino h hend hpass]
          exact h
        · exact (fileRead_before_end _ hrange hino hfile h
            (UInt32.lt_of_le_of_ne h.inside hend) (hargs k)).2.1
      obtain ⟨k, hk, hbefore⟩ := Reader.ends (P := Positioned img fd inode)
        (fileReader img fd args) (fun fds' => (fds' (fdIndex fd)).filePos.toNat)
        (img.inodes inode.toNat).length.toNat hfds
        (fun fds' h => UInt32.le_iff_toNat_le.1 h.inside) hstep
        (fun k fds' h hlt => (fileRead_before_end _ hrange hino hfile h
          (UInt32.lt_iff_toNat_lt.2 hlt) (hargs k)).2.2)
      have hP (j : ℕ) := Reader.invariant (P := fun _ => Positioned img fd inode) hfds hstep j
      refine ⟨k, ?_, fun j hj => ?_⟩
      · rw [Reader.result, fileReader, fileRead_at_end _ hrange hino (hP k)
          (UInt32.toNat_inj.1 hk) hpass]
      · exact (fileRead_before_end _ hrange hino hfile (hP j)
          (UInt32.lt_iff_toNat_lt.2 (hbefore j hj)) (hargs j)).1

/-- The text file of the small image, which ends inside its second block. -/
theorem end_of_file_iff_fish :
    EndsCleanly sampleImage 2 1 ↔
      (sampleImage.inodes 1).length.toNat % 4096 ≠ 0 ∨
        BlockPasses sampleImage (sampleImage.inodes 1)
          ((sampleImage.inodes 1).length.toNat / 4096) :=
  end_of_file_iff sampleImage 2 1 (by decide) (by decide) (by decide) (by decide)

/-- An image with one data block and an empty file, whose index was never written. -/
def emptyFileImage : Image where
  numDirEntries := 1
  numInodes := 1
  numDataBlks := 1
  dirEntries _ := sampleEntry fishName length_fishName 2 0
  inodes _ := ⟨0, fun _ => 0xFFFFFFFF⟩
  blocks _ _ := 0

/-- The first read of the empty file fails. -/
theorem empty_file_fails : (emptyFileImage.inodes 0).usedBlocks = 0 ∧
    ¬EndsCleanly emptyFileImage 2 0 :=
  ⟨rfl, fun h => absurd (h.stays (fun _ => ⟨some .file, 0, 0, 1⟩) (fun _ => (fun _ => 0, 1))
    ⟨rfl, by decide⟩ rfl (fun _ => by decide) 0).1 (by decide)⟩

end WnajOS
