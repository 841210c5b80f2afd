import WnajOS.Library.Reader
import WnajOS.FileSystem.Drivers
import WnajOS.FileSystem.Lookup

/-!
# Listing the directory

`dir_read` takes the length of a name from `strlen`, which runs past the name field when the
name fills it, limits it to 32 and copies that many bytes.  The reads from a fresh descriptor
go through the entries in order, and every name they deliver leads `read_dentry_by_name` back
to the entry it came from.
-/

namespace WnajOS

/-! ### The name of an entry in its 64 bytes -/

lemma strlen_take (s : Str) (n : ℕ) : strlen (s.take n) = min (strlen s) n := by
  rw [strlen, ← List.take_takeWhile, List.length_take, ← strlen, Nat.min_comm]

lemma DirEntry.take_bytes (d : DirEntry) : d.bytes.take maxFilenameLen = d.fileName.toList := by
  rw [DirEntry.bytes, List.append_assoc, List.append_assoc]
  exact List.take_left' Vector.length_toList

/-- The name is the string at the entry, cut at the end of the name field. -/
lemma DirEntry.name_eq (d : DirEntry) : d.name = (cstr d.bytes).take maxFilenameLen := by
  rw [cstr, List.take_takeWhile, d.take_bytes, DirEntry.name]

/-- Limited to 32, what `strlen` finds is the length of the name. -/
lemma DirEntry.min_strlen (d : DirEntry) :
    min (strlen d.bytes) maxFilenameLen = d.name.length := by
  rw [← strlen_take, d.take_bytes]
  rfl

lemma DirEntry.byteAt_name (d : DirEntry) {j : ℕ} (h : j < d.name.length) :
    Str.byteAt d.name j = d.bytes.byteAt j := by
  rw [← d.min_strlen] at h
  rw [d.name_eq, byteAt_take, if_pos (by omega), byteAt_cstr (by omega)]

/-! ### One read -/

/-- The bytes that a read delivered. -/
def ReadRes.delivered (r : ReadRes) : List UInt8 := (List.range r.ret.toInt.toNat).map r.buf

/-- The buffer of `size` bytes after `buf[cnt] = '\0'`. -/
def ReadRes.terminated (r : ReadRes) (size : ℕ) : Str :=
  (List.range size).map (Function.update r.buf r.ret.toInt.toNat 0)

/-- The read into `buf` delivered the name of `d` and stored nothing behind it. -/
structure DeliversName (d : DirEntry) (buf : Buf) (r : ReadRes) : Prop where
  ret : r.ret.toInt = d.name.length
  name : r.delivered = d.name
  rest : ∀ j, d.name.length ≤ j → r.buf j = buf j

section OneRead

variable {img : Image} {fds : FdArr} {fd : Int32} {buf : Buf}

/-- What is needed of a descriptor for `dir_read` to look at the directory. -/
lemma dirRead_range (hfd : 2 ≤ fd ∧ fd < 8) : ¬(fd < 0 ∨ fd ≥ 8 ∨ (32 : Int32) < 0) := by
  have h2 : (2 : ℤ) ≤ fd.toInt := Int32.le_iff_toInt_le.1 hfd.1
  have h8 : fd.toInt < 8 := Int32.lt_iff_toInt_lt.1 hfd.2
  rintro (h | h | h)
  · have : fd.toInt < 0 := Int32.lt_iff_toInt_lt.1 h
    omega
  · have : (8 : ℤ) ≤ fd.toInt := Int32.le_iff_toInt_le.1 h
    omega
  · exact absurd h (by decide)

/-- Past the last entry `dir_read` does nothing. -/
lemma dirRead_end (hfd : 2 ≤ fd ∧ fd < 8) (h : img.numDirEntries ≤ (fds (fdIndex fd)).filePos) :
    dirRead img fds fd buf 32 = ⟨0, buf, fds⟩ := by
  rw [dirRead, if_neg (dirRead_range hfd)]
  dsimp only
  rw [if_pos h]

/-- Before it, `dir_read` copies the name of the entry at the position and moves on. -/
lemma dirRead_entry (buf : Buf) (hfd : 2 ≤ fd ∧ fd < 8)
    (h : (fds (fdIndex fd)).filePos < img.numDirEntries) :
    DeliversName (img.dirEntries (fds (fdIndex fd)).filePos.toNat) buf (dirRead img fds fd buf 32) ∧
      (dirRead img fds fd buf 32).fds = Function.update fds (fdIndex fd)
        { fds (fdIndex fd) with filePos := (fds (fdIndex fd)).filePos + 1 } := by
  obtain ⟨d, hd⟩ : ∃ d, img.dirEntries (fds (fdIndex fd)).filePos.toNat = d := ⟨_, rfl⟩
  have hr : dirRead img fds fd buf 32 = ⟨Int32.ofNat d.name.length,
      strncpy buf d.bytes d.name.length, Function.update fds (fdIndex fd)
        { fds (fdIndex fd) with filePos := (fds (fdIndex fd)).filePos + 1 }⟩ := by
    rw [dirRead, if_neg (dirRead_range hfd)]
    dsimp only
    rw [if_neg (UInt32.not_le.2 h), readDentryByIndex, if_pos h, hd]
    dsimp only
    rw [d.min_strlen]
  have hle : d.name.length ≤ 32 := d.length_name_le
  have hret : (Int32.ofNat d.name.length).toInt = d.name.length :=
    Int32.toInt_ofNat_of_lt (by omega)
  have hmin := d.min_strlen
  rw [hd, hr]
  refine ⟨⟨hret, ?_, fun j hj => ?_⟩, rfl⟩
  · rw [ReadRes.delivered, hret, Int.toNat_natCast]
    refine List.ext_getElem (by simp) fun j hj hj' => ?_
    dsimp only
    rw [List.getElem_map, List.getElem_range, strncpy_apply, if_pos hj', if_pos (by omega),
      ← d.byteAt_name hj', Str.byteAt, List.getD_eq_getElem]
  · dsimp only
    rw [strncpy_apply, if_neg (not_lt.2 hj)]

end OneRead

/-- A name that fits into the buffer is the string there, once it is terminated. -/
lemma DeliversName.cstr_terminated {d : DirEntry} {buf : Buf} {r : ReadRes}
    (h : DeliversName d buf r) {size : ℕ} (hsize : d.name.length < size) :
    cstr (r.terminated size) = d.name := by
  have hret : r.ret.toInt.toNat = d.name.length := by rw [h.ret, Int.toNat_natCast]
  have hsplit : r.terminated size = d.name
      ++ 0 :: (List.range' (d.name.length + 1) (size - d.name.length - 1)).map
        (Function.update r.buf d.name.length 0) := by
    have hname : (List.range' 0 d.name.length).map (Function.update r.buf d.name.length 0)
        = d.name := by
      conv_rhs => rw [← h.name, ReadRes.delivered, hret, List.range_eq_range']
      refine List.map_congr_left fun j hj => Function.update_of_ne ?_ _ _
      have := List.mem_range'_1.1 hj
      omega
    rw [ReadRes.terminated, hret, List.range_eq_range', show size
      = d.name.length + (size - d.name.length - 1 + 1) by omega, ← List.range'_append_1,
      List.map_append, hname, Nat.zero_add, List.range'_succ, List.map_cons, Function.update_self]
    simp only [Nat.add_sub_cancel_left, Nat.add_sub_cancel]
  rw [hsplit, cstr, List.takeWhile_append_of_pos]
  · simp
  · intro x hx
    have := List.mem_takeWhile_imp hx
    simpa using this

/-! ### The whole listing -/

/-- The reads of 32 bytes from the directory, the `k`-th into `bufs k`. -/
def dirReader (img : Image) (fd : Int32) (bufs : ℕ → Buf) (k : ℕ) (fds : FdArr) :
    ReadRes × FdArr :=
  (dirRead img fds fd (bufs k) 32, (dirRead img fds fd (bufs k) 32).fds)

/-- The entries of the directory, in order. -/
def Image.entries (img : Image) : List DirEntry :=
  (List.range img.numDirEntries.toNat).map img.dirEntries

/-- What the reads `res`, the `k`-th into `bufs k` with the descriptor array `arr k` before it,
tell about the directory. -/
structure Lists (img : Image) (bufs : ℕ → Buf) (arr : ℕ → FdArr) (res : ℕ → ReadRes) : Prop where
  /-- the first reads deliver the names of the entries, and store nothing behind them -/
  entry : ∀ i < img.numDirEntries.toNat, DeliversName (img.dirEntries i) (bufs i) (res i)
  /-- their results are from 1 to 32 -/
  length : ∀ i < img.numDirEntries.toNat, 1 ≤ (res i).ret.toInt ∧ (res i).ret.toInt ≤ 32
  /-- so the names come in the order of the entries -/
  order : (List.range img.numDirEntries.toNat).map (fun i => (res i).delivered)
    = img.entries.map DirEntry.name
  /-- and each of them comes once -/
  once : ((List.range img.numDirEntries.toNat).map fun i => (res i).delivered).Nodup
  /-- every later read returns 0 and changes nothing -/
  after : ∀ k, img.numDirEntries.toNat ≤ k → res k = ⟨0, bufs k, arr k⟩
  /-- the name that a read delivered, terminated, is resolved to the entry -/
  lookup : ∀ i < img.numDirEntries.toNat, ∀ size, 33 ≤ size → ∀ dentry,
    readDentryByNameInto img ((res i).terminated size) dentry = (0, img.dirEntries i)

section Listing

variable (img : Image) {fds : FdArr} {fd : Int32} (bufs : ℕ → Buf)

/-- The position counts the reads, up to the number of entries. -/
lemma filePos_dirReader (hfd : 2 ≤ fd ∧ fd < 8) (hfresh : (fds (fdIndex fd)).filePos = 0)
    (k : ℕ) : (Reader.state (dirReader img fd bufs) fds k (fdIndex fd)).filePos.toNat
      = min k img.numDirEntries.toNat := by
  refine Reader.invariant (P := fun k (fds : FdArr) => (fds (fdIndex fd)).filePos.toNat
    = min k img.numDirEntries.toNat) ?_ (fun k fds hpos => ?_) k
  · rw [hfresh, Nat.zero_min]
    rfl
  · rw [dirReader]
    dsimp only
    have hlt : img.numDirEntries.toNat < 2 ^ 32 := UInt32.toNat_lt _
    by_cases h : img.numDirEntries ≤ (fds (fdIndex fd)).filePos
    · have h' := UInt32.le_iff_toNat_le.1 h
      rw [dirRead_end hfd h]
      dsimp only
      omega
    · have h' := UInt32.lt_iff_toNat_lt.1 (UInt32.not_le.1 h)
      rw [(dirRead_entry _ hfd (UInt32.not_le.1 h)).2, Function.update_self]
      dsimp only
      rw [UInt32.toNat_add, UInt32.toNat_one, Nat.mod_eq_of_lt (by omega)]
      omega

/-- The `i`-th read delivers the name of entry `i`. -/
lemma dirReader_entry (hfd : 2 ≤ fd ∧ fd < 8) (hfresh : (fds (fdIndex fd)).filePos = 0) {i : ℕ}
    (hi : i < img.numDirEntries.toNat) : DeliversName (img.dirEntries i) (bufs i)
      (Reader.result (dirReader img fd bufs) fds i) := by
  have hpos := filePos_dirReader img bufs hfd hfresh i
  rw [Nat.min_eq_left hi.le] at hpos
  have hlt : (Reader.state (dirReader img fd bufs) fds i (fdIndex fd)).filePos
      < img.numDirEntries := by
    rw [UInt32.lt_iff_toNat_lt, hpos]
    exact hi
  have h := (dirRead_entry (bufs i) hfd hlt).1
  rw [hpos] at h
  exact h

end Listing

/-- **Directory listing and lookup agree.**  The names need not be padded with zeros behind
their terminators. -/
theorem listing_agrees_with_lookup (img : Image) (fd : Int32) (fds : FdArr) (bufs : ℕ → Buf)
    (hn : img.numDirEntries.toNat ≤ 63)
    (hne : ∀ i < img.numDirEntries.toNat, (img.dirEntries i).name ≠ [])
    (hdistinct : ∀ i < img.numDirEntries.toNat, ∀ j < img.numDirEntries.toNat,
      (img.dirEntries i).name = (img.dirEntries j).name → i = j)
    (hfd : 2 ≤ fd ∧ fd < 8) (hfresh : (fds (fdIndex fd)).filePos = 0) :
    Lists img bufs (Reader.state (dirReader img fd bufs) fds)
      (Reader.result (dirReader img fd bufs) fds) := by
  have hentry (i : ℕ) (hi : i < img.numDirEntries.toNat) :=
    dirReader_entry img bufs hfd hfresh hi
  have horder : (List.range img.numDirEntries.toNat).map
      (fun i => (Reader.result (dirReader img fd bufs) fds i).delivered)
        = img.entries.map DirEntry.name := by
    rw [Image.entries, List.map_map]
    exact List.map_congr_left fun i hi => (hentry i (List.mem_range.1 hi)).name
  refine ⟨hentry, ?_, horder, ?_, ?_, ?_⟩
  · intro i hi
    have hpos := List.length_pos_iff.2 (hne i hi)
    have hle : (img.dirEntries i).name.length ≤ 32 := (img.dirEntries i).length_name_le
    rw [(hentry i hi).ret]
    omega
  · rw [horder, Image.entries, List.map_map]
    refine List.Nodup.map_on (fun i hi j hj => ?_) List.nodup_range
    exact hdistinct i (List.mem_range.1 hi) j (List.mem_range.1 hj)
  · -- the position has come to the number of entries
    intro k hk
    have hpos := filePos_dirReader img bufs hfd hfresh k
    rw [Nat.min_eq_right hk] at hpos
    refine dirRead_end hfd ?_
    rw [UInt32.le_iff_toNat_le, hpos]
  · intro i hi size hsize dentry
    have hle : (img.dirEntries i).name.length ≤ 32 := (img.dirEntries i).length_name_le
    have hcstr := (hentry i hi).cstr_terminated (show _ < size by omega)
    rw [readDentryByNameInto_eq, readDentryByName_of_first (by omega) hi hcstr.symm]
    · rfl
    · -- an earlier entry of the name would be this one
      intro j hj hname
      rw [hcstr] at hname
      exact absurd (hdistinct j (by omega) i hi hname) (by omega)

/-- A descriptor array with the directory freshly opened at 2. -/
def listFds : FdArr := fun _ => ⟨some .dir, 0, 0, 1⟩

/-- The four names of the small image. -/
theorem listing_agrees_with_lookup_sample :
    Lists sampleImage (fun _ _ => 0)
      (Reader.state (dirReader sampleImage 2 fun _ _ => 0) listFds)
      (Reader.result (dirReader sampleImage 2 fun _ _ => 0) listFds) :=
  listing_agrees_with_lookup sampleImage 2 listFds (fun _ _ => 0) (by decide) (by decide)
    (by decide) (by decide) rfl

end WnajOS
