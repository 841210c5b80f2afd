import WnajOS.Lib

/-!
# The file system image and its driver (`filesystem.c`)

The image is read-only and lies in memory as the boot loader left it: a boot block, the
inodes, the data blocks.  Its arrays are total functions of the index, so that a read past
the end of an array has the value of whatever lies there; every bound that the code checks is
checked in the definitions below, and nothing else is.
-/

namespace WnajOS

/-- `MAX_FILENAME_LEN`. -/
def maxFilenameLen : ℕ := 32

/-- `DATA_BLK_SIZE`. -/
def dataBlkSize : ℕ := 4096

/-- `INODE_DATA_BLOCK_NUM`. -/
def inodeDataBlockNum : ℕ := 1023

/-- `dir_entry_t`. -/
structure DirEntry where
  fileName : Vector UInt8 32
  fileType : UInt32
  inodeNum : UInt32
  reserved : Vector UInt8 24

/-- `inode_t`. -/
structure Inode where
  length : UInt32
  dataBlocks : ℕ → UInt32

/-- The image: the fields of `boot_blk_t`, the inodes and the data blocks. -/
structure Image where
  numDirEntries : UInt32
  numInodes : UInt32
  numDataBlks : UInt32
  dirEntries : ℕ → DirEntry
  inodes : ℕ → Inode
  blocks : ℕ → ℕ → UInt8

/-- The bytes of a little-endian word. -/
def leBytes (x : UInt32) : List UInt8 :=
  [x.toUInt8, (x >>> 8).toUInt8, (x >>> 16).toUInt8, (x >>> 24).toUInt8]

/-- The 64 bytes of a directory entry, in the order of the packed structure. -/
def DirEntry.bytes (d : DirEntry) : Str :=
  d.fileName.toList ++ leBytes d.fileType ++ leBytes d.inodeNum ++ d.reserved.toList

/-- The name of an entry: its bytes up to the first `NUL`, or all 32. -/
def DirEntry.name (d : DirEntry) : Str := d.fileName.toList.takeWhile (· ≠ 0)

/-! ### Directory lookup -/

/-- `read_dentry_by_index`: the entry copied to `*dentry`, `none` for the result `-1`. -/
def readDentryByIndex (img : Image) (index : UInt32) : Option DirEntry :=
  if index < img.numDirEntries then some (img.dirEntries index.toNat) else none

/-- The search loop of `read_dentry_by_name`, with `n` entries left, at entry `i`. -/
def searchFrom (img : Image) (fname : Str) : (n i : ℕ) → Option DirEntry
  | 0, _ => none
  | n + 1, i =>
    if strncmp fname (img.dirEntries i).fileName.toList maxFilenameLen = 0 then
      readDentryByIndex img (UInt32.ofNat i)
    else searchFrom img fname n (i + 1)

/-- `read_dentry_by_name`: the entry copied to `*dentry`, `none` for the result `-1`.  The
loop bound is the entry count read as an `int`. -/
def readDentryByName (img : Image) (fname : Str) : Option DirEntry :=
  if strlen fname > maxFilenameLen then none
  else searchFrom img fname img.numDirEntries.toInt32.toInt.toNat 0

/-! ### Reading data -/

/-- What `read_data` leaves behind: its result, the buffer and the number of bytes stored. -/
structure ReadData where
  ret : Int32
  buf : Buf
  bufCounter : ℕ

/-- The copy loop of `read_data`, with `n = length - buf_counter` bytes still wanted.
`inode_db_idx` and `curr_db_number` are refreshed at a block boundary other than the start. -/
def readLoop (img : Image) (ino : Inode) (length : UInt32) :
    (n inodeDbIdx : ℕ) → (currDbNumber : UInt32) → (offset bufCounter : ℕ) → Buf → ReadData
  | 0, _, _, _, bufCounter, buf => ⟨length.toInt32, buf, bufCounter⟩
  | n + 1, inodeDbIdx, currDbNumber, offset, bufCounter, buf =>
    if offset < ino.length.toNat then
      if bufCounter ≠ 0 ∧ offset % dataBlkSize = 0 then
        let inodeDbIdx := inodeDbIdx + 1
        let currDbNumber := ino.dataBlocks inodeDbIdx
        if currDbNumber > img.numDataBlks - 1 then ⟨-1, buf, bufCounter⟩
        else
          readLoop img ino length n inodeDbIdx currDbNumber (offset + 1) (bufCounter + 1)
            (Function.update buf bufCounter
              (img.blocks currDbNumber.toNat (offset % dataBlkSize)))
      else
        readLoop img ino length n inodeDbIdx currDbNumber (offset + 1) (bufCounter + 1)
          (Function.update buf bufCounter
            (img.blocks currDbNumber.toNat (offset % dataBlkSize)))
    else ⟨0, buf, bufCounter⟩

/-- `read_data`. -/
def readData (img : Image) (inode offset : UInt32) (buf : Buf) (length : UInt32) : ReadData :=
  if inode > img.numInodes - 1 then ⟨-1, buf, 0⟩
  else
    let ino := img.inodes inode.toNat
    if offset > ino.length then ⟨0, buf, 0⟩
    else
      let inodeDbIdx := offset.toNat / dataBlkSize
      let currDbNumber := ino.dataBlocks inodeDbIdx
      if currDbNumber > img.numDataBlks - 1 then ⟨-1, buf, 0⟩
      else readLoop img ino length length.toNat inodeDbIdx currDbNumber offset.toNat 0 buf

/-! ### File contents -/

/-- Byte `i` of a file: the data blocks follow each other in index order. -/
def fileByte (img : Image) (ino : Inode) (i : ℕ) : UInt8 :=
  img.blocks (ino.dataBlocks (i / dataBlkSize)).toNat (i % dataBlkSize)

/-- Entry `j` of the block index of an inode names a data block of the image. -/
def BlockOk (img : Image) (ino : Inode) (j : ℕ) : Prop := ino.dataBlocks j < img.numDataBlks

instance (img : Image) (ino : Inode) (j : ℕ) : Decidable (BlockOk img ino j) :=
  inferInstanceAs (Decidable (_ < _))

/-! ### A small image

Four entries, with an executable, a text file over two scattered blocks, and the two special
files; the later files try the definitions on it. -/

/-- A name, padded with zeros. -/
def paddedName (s : List UInt8) (h : s.length ≤ 32) : Vector UInt8 32 :=
  ⟨⟨s ++ List.replicate (32 - s.length) 0⟩, by
    simp only [List.size_toArray, List.length_append, List.length_replicate]
    omega⟩

/-- An entry whose reserved bytes are zero. -/
def sampleEntry (s : List UInt8) (h : s.length ≤ 32) (fileType inodeNum : UInt32) : DirEntry :=
  ⟨paddedName s h, fileType, inodeNum, ⟨⟨List.replicate 24 0⟩, rfl⟩⟩

/-- The name `shell`. -/
def shellName : Str := [115, 104, 101, 108, 108]

/-- The name `fish`. -/
def fishName : Str := [102, 105, 115, 104]

/-- The name `rtc`. -/
def rtcName : Str := [114, 116, 99]

lemma length_rtcName : rtcName.length ≤ 32 := by decide

lemma length_fishName : fishName.length ≤ 32 := by decide

/-- The entries `.`, `shell`, `fish` and `rtc`. -/
def sampleImage : Image where
  numDirEntries := 4
  numInodes := 2
  numDataBlks := 3
  dirEntries i := [sampleEntry [46] (by decide) 1 0, sampleEntry shellName (by decide) 2 0,
    sampleEntry fishName (by decide) 2 1].getD i (sampleEntry rtcName length_rtcName 0 0)
  inodes i := if i = 0 then ⟨40, fun _ => 0⟩ else ⟨4098, fun j => if j = 0 then 2 else 1⟩
  blocks b i := if b = 0 then [127, 69, 76, 70].getD i 0 else UInt8.ofNat (i + b)

end WnajOS
