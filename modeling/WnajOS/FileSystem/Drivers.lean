import WnajOS.FileSystem.ReadData

/-!
# Descriptors and the file and directory drivers

A process holds its open files in `fd_arr`.  The driver of an open descriptor is the table of
function pointers copied into the entry when it was opened; `syscall_halt` overwrites the
four pointers with null.
-/

namespace WnajOS

/-- `MAX_FD_ARR_SIZE`. -/
def maxFdArrSize : ℕ := 8

/-- The driver tables of `syscall_functions.c`: `stdin_ops`, `stdout_ops`, `dir_ops`,
`file_ops` and `rtc_ops`. -/
inductive Driver
  | stdin
  | stdout
  | dir
  | file
  | rtc
deriving DecidableEq

/-- `fd_arr_entry_t`.  The table of function pointers is `none` when no driver table has
been stored in the entry since its memory was last cleared. -/
structure FdEntry where
  fileOps : Option Driver
  inode : UInt32
  filePos : UInt32
  flags : UInt32

/-- `fd_arr`, by index. -/
abbrev FdArr := ℕ → FdEntry

/-- The index of a descriptor that passed the range check. -/
abbrev fdIndex (fd : Int32) : ℕ := fd.toInt.toNat

/-- The result of a read: the value returned, the buffer, the descriptor array. -/
structure ReadRes where
  ret : Int32
  buf : Buf
  fds : FdArr

/-- `file_read`.  The position arithmetic is that of `uint32_t`. -/
def fileRead (img : Image) (fds : FdArr) (fd : Int32) (buf : Buf) (nbytes : Int32) : ReadRes :=
  if fd < 2 ∨ fd ≥ 8 then ⟨-1, buf, fds⟩
  else
    let e := fds (fdIndex fd)
    let rd := readData img e.inode e.filePos buf nbytes.toUInt32
    let readBytes := rd.ret.toUInt32
    let eofRetVal := (img.inodes e.inode.toNat).length - e.filePos
    if readBytes = 0 then
      ⟨eofRetVal.toInt32, rd.buf,
        Function.update fds (fdIndex fd) { e with filePos := e.filePos + eofRetVal }⟩
    else
      ⟨readBytes.toInt32, rd.buf,
        Function.update fds (fdIndex fd) { e with filePos := e.filePos + nbytes.toUInt32 }⟩

/-- `dir_read`.  The name's length is that `strlen` finds in the local copy of the entry,
running on into the fields after the name, and is then limited to 32.  (The test for a null
buffer is decided in `syscall_read` already.) -/
def dirRead (img : Image) (fds : FdArr) (fd : Int32) (buf : Buf) (nbytes : Int32) : ReadRes :=
  if fd < 0 ∨ fd ≥ 8 ∨ nbytes < 0 then ⟨-1, buf, fds⟩
  else
    let e := fds (fdIndex fd)
    if img.numDirEntries ≤ e.filePos then ⟨0, buf, fds⟩
    else
      match readDentryByIndex img e.filePos with
      | none => ⟨-1, buf, fds⟩
      | some fileMetadata =>
        let nameLength := min (strlen fileMetadata.bytes) maxFilenameLen
        ⟨Int32.ofNat nameLength, strncpy buf fileMetadata.bytes nameLength,
          Function.update fds (fdIndex fd) { e with filePos := e.filePos + 1 }⟩

/-! ### `file_read` by the outcome of `read_data` -/

lemma fd_inRange {fd : Int32} (hfd : 2 ≤ fd ∧ fd < 8) : ¬(fd < 2 ∨ fd ≥ 8) := by
  rintro (h2 | h8)
  · exact Int32.not_lt.2 hfd.1 h2
  · exact Int32.not_lt.2 h8 hfd.2

section FileRead

variable {img : Image} {fds : FdArr} {fd : Int32} {buf : Buf} {nbytes : Int32} {rd : ReadData}

lemma fileRead_eof (hfd : ¬(fd < 2 ∨ fd ≥ 8))
    (hrd : readData img (fds (fdIndex fd)).inode (fds (fdIndex fd)).filePos buf nbytes.toUInt32
      = rd) (hret : rd.ret.toUInt32 = 0) :
    fileRead img fds fd buf nbytes =
      ⟨((img.inodes (fds (fdIndex fd)).inode.toNat).length - (fds (fdIndex fd)).filePos).toInt32,
        rd.buf, Function.update fds (fdIndex fd) { fds (fdIndex fd) with
          filePos := (fds (fdIndex fd)).filePos +
            ((img.inodes (fds (fdIndex fd)).inode.toNat).length - (fds (fdIndex fd)).filePos) }⟩ := by
  rw [fileRead, if_neg hfd]
  dsimp only
  rw [hrd, if_pos hret]

lemma fileRead_full (hfd : ¬(fd < 2 ∨ fd ≥ 8))
    (hrd : readData img (fds (fdIndex fd)).inode (fds (fdIndex fd)).filePos buf nbytes.toUInt32
      = rd) (hret : rd.ret.toUInt32 ≠ 0) :
    fileRead img fds fd buf nbytes =
      ⟨rd.ret.toUInt32.toInt32, rd.buf, Function.update fds (fdIndex fd) { fds (fdIndex fd) with
          filePos := (fds (fdIndex fd)).filePos + nbytes.toUInt32 }⟩ := by
  rw [fileRead, if_neg hfd]
  dsimp only
  rw [hrd, if_neg hret]

end FileRead

end WnajOS
