import WnajOS.FileSystem.Directory
import WnajOS.FileSystem.FilePosition
import WnajOS.Opening
import WnajOS.Userland.Support

/-!
# Reading to the end

What a read does to a descriptor that stands in a file or in the directory.  A loop that reads a
descriptor until it gets 0 sees a sequence of pieces: those of the file, the names of the directory,
or nothing at all.
-/

namespace WnajOS

namespace Userland

open Programs

/-- A buffer with a text at its start. -/
def store (buf : Buf) (cs : Str) : Buf := memcpy buf cs.byteAt cs.length

/-- A descriptor further on. -/
def moved (e : FdEntry) (n : ℕ) : FdEntry := { e with filePos := e.filePos + UInt32.ofNat n }

/-- The state after the position of a descriptor was moved. -/
def Own.advance (o : Own) (fd : Int32) (n : ℕ) : Own :=
  { o with fds := Function.update o.fds (fdIndex fd) (moved (o.fds (fdIndex fd)) n) }

lemma Own.advance_self (o : Own) (fd : Int32) (n : ℕ) :
    (o.advance fd n).fds (fdIndex fd) = moved (o.fds (fdIndex fd)) n := Function.update_self ..

lemma advance_zero (o : Own) (fd : Int32) : o.advance fd 0 = o := by
  rw [Own.advance, moved, show UInt32.ofNat 0 = 0 from rfl, UInt32.add_zero,
    Function.update_eq_self]

/-- The descriptor is open, with a driver. -/
structure OpenWith (o : Own) (fd : Int32) (driver : Driver) : Prop where
  range : 2 ≤ fd ∧ fd < 8
  ops : (o.fds (fdIndex fd)).fileOps = some driver
  flags : (o.fds (fdIndex fd)).flags ≠ 0

section Reading

variable {img : Image} {o : Own} {fd nbytes : Int32} {driver : Driver} {rest : Str}
  {names : List Str}

lemma fdIndex_ge (h : 2 ≤ fd) : 2 ≤ fdIndex fd := by
  have h2 : (2 : ℤ) ≤ fd.toInt := Int32.le_iff_toInt_le.1 h
  rw [fdIndex]
  omega

lemma OpenWith.print (h : OpenWith o fd driver) (cs : Str) : OpenWith (o.print cs) fd driver :=
  ⟨h.range, h.ops, h.flags⟩

lemma OpenWith.advance (h : OpenWith o fd driver) (n : ℕ) :
    OpenWith (o.advance fd n) fd driver := by
  refine ⟨h.range, ?_, ?_⟩
  · rw [Own.advance_self]
    exact h.ops
  · rw [Own.advance_self]
    exact h.flags

/-- Reading leaves descriptor 1 alone. -/
lemma OpenWith.advance_stdout (h : OpenWith o fd driver) (n : ℕ) :
    (o.advance fd n).fds 1 = o.fds 1 := by
  have h2 := fdIndex_ge h.range.1
  have hne : 1 ≠ fdIndex fd := by omega
  exact Function.update_of_ne hne ..

lemma OpenWith.serve_read (h : OpenWith o fd driver) (hn : 0 ≤ nbytes) (buf : Buf) :
    o.serve img (.read fd buf nbytes) = o.readFrom img fd buf nbytes := by
  rw [Own.serve, if_neg]
  rintro (hlt | hge | hneg | hflags)
  · have h2 := Int32.le_iff_toInt_le.1 h.range.1
    have h0 := Int32.lt_iff_toInt_lt.1 hlt
    simp only [Int32.toInt_zero] at h0
    rw [show (2 : Int32).toInt = 2 from rfl] at h2
    omega
  · exact Int32.not_lt.2 hge h.range.2
  · exact Int32.not_lt.2 hn hneg
  · exact h.flags hflags

/-! ### Files -/

/-- A file that can be read to its end. -/
structure Readable (img : Image) (ino : Inode) : Prop where
  file : FileOk img ino
  final : BlockPasses img ino (ino.length.toNat / dataBlkSize)

/-- The descriptor stands in a file, with the bytes `rest` left. -/
structure FileAt (img : Image) (o : Own) (fd : Int32) (rest : Str) : Prop
    extends OpenWith o fd .file where
  inode : (o.fds (fdIndex fd)).inode < img.numInodes
  readable : Readable img (img.inodes (o.fds (fdIndex fd)).inode.toNat)
  inside : (o.fds (fdIndex fd)).filePos ≤ (img.inodes (o.fds (fdIndex fd)).inode.toNat).length
  rest : rest = (contents img (img.inodes (o.fds (fdIndex fd)).inode.toNat)).drop
    (o.fds (fdIndex fd)).filePos.toNat

lemma FileAt.print (h : FileAt img o fd rest) (cs : Str) : FileAt img (o.print cs) fd rest :=
  ⟨h.toOpenWith.print cs, h.inode, h.readable, h.inside, h.rest⟩

lemma FileAt.length_rest (h : FileAt img o fd rest) : rest.length =
    (img.inodes (o.fds (fdIndex fd)).inode.toNat).length.toNat
      - (o.fds (fdIndex fd)).filePos.toNat := by
  rw [h.rest, List.length_drop, length_contents]

lemma FileAt.byteAt_rest (h : FileAt img o fd rest) {j : ℕ} (hj : j < rest.length) :
    rest.byteAt j = fileByte img (img.inodes (o.fds (fdIndex fd)).inode.toNat)
      ((o.fds (fdIndex fd)).filePos.toNat + j) := by
  rw [Str.byteAt, List.getD_eq_getElem _ _ hj]
  simp only [h.rest, contents_eq, List.getElem_drop, List.getElem_map, List.getElem_range]

lemma FileAt.advance (h : FileAt img o fd rest) {n : ℕ} (hn : n ≤ rest.length) :
    FileAt img (o.advance fd n) fd (rest.drop n) := by
  have hlen := h.length_rest
  have hinside := UInt32.le_iff_toNat_le.1 h.inside
  have hlt := h.readable.file.length_lt
  have hself := o.advance_self fd n
  have hpos : ((o.fds (fdIndex fd)).filePos + UInt32.ofNat n).toNat =
      (o.fds (fdIndex fd)).filePos.toNat + n := by
    rw [UInt32.toNat_add, UInt32.toNat_ofNat', Nat.mod_eq_of_lt (a := n) (by omega),
      Nat.mod_eq_of_lt (by omega)]
  refine ⟨h.toOpenWith.advance n, ?_, ?_, ?_, ?_⟩
  · rw [hself]
    exact h.inode
  · rw [hself]
    exact h.readable
  · rw [hself, moved, UInt32.le_iff_toNat_le]
    dsimp only
    rw [hpos]
    omega
  · rw [hself, moved]
    dsimp only
    rw [hpos, ← List.drop_drop, ← h.rest]

/-- **A read of a file.** -/
lemma FileAt.read (h : FileAt img o fd rest) (hn : 0 < nbytes) (buf : Buf) :
    o.serve img (.read fd buf nbytes) =
      some ((Int32.ofNat (rest.take nbytes.toInt.toNat).length,
        store buf (rest.take nbytes.toInt.toNat)),
        o.advance fd (rest.take nbytes.toInt.toNat).length) := by
  have hrange := fd_inRange h.range
  have hlen := h.length_rest
  have hnpos : (0 : ℤ) < nbytes.toInt := by simpa using Int32.lt_iff_toInt_lt.1 hn
  rw [h.serve_read (Int32.le_of_lt hn), Own.readFrom, h.ops]
  dsimp only
  by_cases hend : rest = []
  · -- the end of the file
    have hpos : (o.fds (fdIndex fd)).filePos =
        (img.inodes (o.fds (fdIndex fd)).inode.toNat).length := by
      have hinside := UInt32.le_iff_toNat_le.1 h.inside
      rw [hend, List.length_nil] at hlen
      exact UInt32.toNat_inj.1 (by omega)
    rw [fileRead_at_end buf hrange h.inode ⟨rfl, h.inside⟩ hpos h.readable.final, hend]
    simp only [List.take_nil, List.length_nil]
    have hbuf : store buf [] = buf := rfl
    rw [hbuf, advance_zero]
    rfl
  · have hne : 0 < rest.length := List.length_pos_iff.2 hend
    have hlt : (o.fds (fdIndex fd)).filePos <
        (img.inodes (o.fds (fdIndex fd)).inode.toNat).length :=
      UInt32.lt_iff_toNat_lt.2 (by omega)
    have hspec := fileRead_spec buf hrange h.inode h.readable.file hn hlt
    have hlt31 := h.readable.file.length_lt
    have hm : min nbytes.toInt.toNat
        ((img.inodes (o.fds (fdIndex fd)).inode.toNat).length.toNat
          - (o.fds (fdIndex fd)).filePos.toNat) = (rest.take nbytes.toInt.toNat).length := by
      rw [List.length_take, hlen]
    rw [hm] at hspec
    have htake := List.length_take_le' nbytes.toInt.toNat rest
    generalize hr : fileRead img o.fds fd buf nbytes = r at hspec
    have hret : r.ret = Int32.ofNat (rest.take nbytes.toInt.toNat).length := by
      rw [← Int32.toInt_inj, hspec.ret, toInt_ofNat (by omega)]
    have hbuf : r.buf = store buf (rest.take nbytes.toInt.toNat) := by
      rw [hspec.buf]
      funext i
      rw [store, memcpy]
      split
      · rename_i hi
        have hi' : i < rest.length := by omega
        rw [Buf.put_of_lt hi, byteAt_take, if_pos, h.byteAt_rest hi']
        rw [List.length_take] at hi
        omega
      · exact Buf.put_of_ge (by omega)
    have hfds : r.fds = (o.advance fd (rest.take nbytes.toInt.toNat).length).fds := by
      funext k
      by_cases hk : k = fdIndex fd
      · subst hk
        rw [Own.advance_self, moved, hspec.entry]
        have hpos : (r.fds (fdIndex fd)).filePos = (o.fds (fdIndex fd)).filePos +
            UInt32.ofNat (rest.take nbytes.toInt.toNat).length := by
          rw [← UInt32.toNat_inj, hspec.filePos, UInt32.toNat_add, UInt32.toNat_ofNat',
            Nat.mod_eq_of_lt (a := (rest.take nbytes.toInt.toNat).length) (by omega),
            Nat.mod_eq_of_lt (by omega)]
        rw [hpos]
      · rw [hspec.others k hk]
        exact (Function.update_of_ne hk ..).symm
    rw [hret, hbuf, hfds]
    rfl

/-! ### The directory -/

/-- The descriptor stands in the directory, with `names` left. -/
structure DirAt (img : Image) (o : Own) (fd : Int32) (names : List Str) : Prop
    extends OpenWith o fd .dir where
  inside : (o.fds (fdIndex fd)).filePos ≤ img.numDirEntries
  rest : names = (img.entries.map DirEntry.name).drop (o.fds (fdIndex fd)).filePos.toNat

lemma DirAt.print (h : DirAt img o fd names) (cs : Str) : DirAt img (o.print cs) fd names :=
  ⟨h.toOpenWith.print cs, h.inside, h.rest⟩

/-- The number of bytes makes no difference to `dir_read`. -/
lemma dirRead_nbytes {fds : FdArr} {buf : Buf} (hfd : 2 ≤ fd ∧ fd < 8) (hn : 0 ≤ nbytes) :
    dirRead img fds fd buf nbytes = dirRead img fds fd buf 32 := by
  have h32 := dirRead_range hfd
  have hnb : ¬(fd < 0 ∨ fd ≥ 8 ∨ nbytes < 0) := by
    rintro (h | h | h)
    · exact h32 (Or.inl h)
    · exact h32 (Or.inr (Or.inl h))
    · exact Int32.not_lt.2 hn h
  rw [dirRead, dirRead, if_neg hnb, if_neg h32]

/-- A read at the end of the directory. -/
lemma DirAt.read_nil (h : DirAt img o fd []) (hn : 0 ≤ nbytes) (buf : Buf) :
    o.serve img (.read fd buf nbytes) = some ((0, buf), o) := by
  have hend : img.numDirEntries ≤ (o.fds (fdIndex fd)).filePos := by
    have hlen := congrArg List.length h.rest
    simp only [List.length_nil, List.length_drop, List.length_map, Image.entries,
      List.length_range] at hlen
    exact UInt32.le_iff_toNat_le.2 (by omega)
  rw [h.serve_read hn, Own.readFrom, h.ops]
  dsimp only
  rw [dirRead_nbytes h.range hn, dirRead_end h.range hend]

/-- The buffer after a read of the directory. -/
lemma deliversName_buf {d : DirEntry} {buf : Buf} {r : ReadRes} (h : DeliversName d buf r) :
    r.buf = store buf d.name := by
  have hret : r.ret.toInt.toNat = d.name.length := by rw [h.ret, Int.toNat_natCast]
  funext i
  rw [store, memcpy]
  split
  · rename_i hi
    have hname := h.name
    rw [ReadRes.delivered, hret] at hname
    have hget : ((List.range d.name.length).map r.buf).getD i 0 = d.name.getD i 0 := by rw [hname]
    rw [Str.byteAt, ← hget, List.getD_eq_getElem _ _ (by simpa using hi), List.getElem_map,
      List.getElem_range]
  · rename_i hi
    exact h.rest i (by omega)

/-- **A read of the directory.** -/
lemma DirAt.read_cons {name : Str} (h : DirAt img o fd (name :: names)) (hn : 0 ≤ nbytes)
    (buf : Buf) : o.serve img (.read fd buf nbytes) =
        some ((Int32.ofNat name.length, store buf name), o.advance fd 1) ∧
      DirAt img (o.advance fd 1) fd names ∧ name.length ≤ 32 := by
  have hlt : (o.fds (fdIndex fd)).filePos.toNat < img.numDirEntries.toNat := by
    have hlen := congrArg List.length h.rest
    simp only [List.length_cons, List.length_drop, List.length_map, Image.entries,
      List.length_range] at hlen
    omega
  have hname : (img.dirEntries (o.fds (fdIndex fd)).filePos.toNat).name = name ∧
      names = (img.entries.map DirEntry.name).drop ((o.fds (fdIndex fd)).filePos.toNat + 1) := by
    have hrest := h.rest
    rw [List.drop_eq_getElem_cons (by simpa [Image.entries] using hlt)] at hrest
    obtain ⟨hhead, htail⟩ := List.cons.inj hrest
    refine ⟨?_, htail⟩
    rw [hhead]
    simp [Image.entries]
  obtain ⟨hname, hnames⟩ := hname
  have hbefore : (o.fds (fdIndex fd)).filePos < img.numDirEntries := UInt32.lt_iff_toNat_lt.2 hlt
  obtain ⟨hdel, hfds⟩ := dirRead_entry buf h.range hbefore
  generalize img.dirEntries (o.fds (fdIndex fd)).filePos.toNat = d at hname hdel
  subst hname
  have hle : d.name.length ≤ 32 := d.length_name_le
  rw [h.serve_read hn, Own.readFrom, h.ops]
  dsimp only
  rw [dirRead_nbytes h.range hn, hfds]
  generalize dirRead img o.fds fd buf 32 = r at hdel
  have hret : r.ret = Int32.ofNat d.name.length := by
    rw [← Int32.toInt_inj, hdel.ret, toInt_ofNat (by omega)]
  refine ⟨?_, ⟨h.toOpenWith.advance 1, ?_, ?_⟩, hle⟩
  · rw [hret, deliversName_buf hdel]
    rfl
  · rw [Own.advance_self, moved, UInt32.le_iff_toNat_le]
    dsimp only
    rw [UInt32.toNat_add]
    have hnum := img.numDirEntries.toNat_lt
    rw [show (UInt32.ofNat 1).toNat = 1 from rfl, Nat.mod_eq_of_lt (by omega)]
    omega
  · rw [Own.advance_self, moved]
    dsimp only
    have hnum := img.numDirEntries.toNat_lt
    rw [UInt32.toNat_add, show (UInt32.ofNat 1).toNat = 1 from rfl, Nat.mod_eq_of_lt (by omega)]
    exact hnames

end Reading

/-! ### Streams -/

/-- Reads of `nbytes` bytes from the descriptor deliver the pieces, one after another, and then
nothing more, whatever is printed in between. -/
inductive Stream (img : Image) (fd nbytes : Int32) : Own → List Str → Prop
  | done {o : Own} (h : ∀ cs buf,
      (o.print cs).serve img (.read fd buf nbytes) = some ((0, buf), o.print cs)) :
      Stream img fd nbytes o []
  | more {o o' : Own} {piece : Str} {pieces : List Str} (hne : piece ≠ [])
      (hle : (piece.length : ℤ) ≤ nbytes.toInt)
      (h : ∀ cs buf, (o.print cs).serve img (.read fd buf nbytes) =
        some ((Int32.ofNat piece.length, store buf piece), o'.print cs))
      (hfd1 : o'.fds 1 = o.fds 1) (hprinted : o'.printed = o.printed)
      (next : Stream img fd nbytes o' pieces) : Stream img fd nbytes o (piece :: pieces)

section Streams

variable {img : Image} {o : Own} {fd nbytes : Int32} {rest : Str} {pieces : List Str}

lemma print_print (o : Own) (cs cs' : Str) : (o.print cs).print cs' = o.print (cs ++ cs') := by
  simp only [Own.print, List.append_assoc]

lemma Stream.print (h : Stream img fd nbytes o pieces) (cs : Str) :
    Stream img fd nbytes (o.print cs) pieces := by
  induction h with
  | done h =>
    refine .done fun cs' buf => ?_
    rw [print_print]
    exact h _ buf
  | @more o o' piece pieces hne hle h hfd1 hprinted _ ih =>
    have h' (cs' : Str) (buf : Buf) : ((o.print cs).print cs').serve img (.read fd buf nbytes) =
        some ((Int32.ofNat piece.length, store buf piece), (o'.print cs).print cs') := by
      rw [print_print, print_print]
      exact h _ buf
    exact .more hne hle h' hfd1 (congrArg (· ++ cs) hprinted) ih

@[simp] lemma print_nil (o : Own) : o.print [] = o := by
  simp only [Own.print, List.append_nil]

/-- The read after the last piece. -/
lemma Stream.nil_read (h : Stream img fd nbytes o []) (buf : Buf) :
    o.serve img (.read fd buf nbytes) = some ((0, buf), o) := by
  cases h with
  | done h => simpa only [print_nil] using h [] buf

/-- The read of a piece. -/
lemma Stream.cons_read {piece : Str} (h : Stream img fd nbytes o (piece :: pieces)) :
    piece ≠ [] ∧ (piece.length : ℤ) ≤ nbytes.toInt ∧ ∃ o',
      (∀ buf, o.serve img (.read fd buf nbytes) =
        some ((Int32.ofNat piece.length, store buf piece), o')) ∧
      o'.fds 1 = o.fds 1 ∧ o'.printed = o.printed ∧ Stream img fd nbytes o' pieces := by
  cases h with
  | @more _ o' _ _ hne hle h hfd1 hprinted next =>
    exact ⟨hne, hle, o', fun buf => by simpa only [print_nil] using h [] buf, hfd1, hprinted, next⟩

lemma take_append_drop_length (n : ℕ) (cs : Str) :
    cs.take n ++ cs.drop (cs.take n).length = cs := by
  rw [List.length_take]
  rcases Nat.le_total n cs.length with hle | hle
  · rw [Nat.min_eq_left hle, List.take_append_drop]
  · rw [Nat.min_eq_right hle, List.take_of_length_le hle, List.drop_length, List.append_nil]

/-- A file is delivered to its end. -/
lemma FileAt.stream (h : FileAt img o fd rest) (hn : 0 < nbytes) :
    ∃ pieces, Stream img fd nbytes o pieces ∧ pieces.flatten = rest := by
  have hnpos : (0 : ℤ) < nbytes.toInt := by simpa using Int32.lt_iff_toInt_lt.1 hn
  induction hlen : rest.length using Nat.strong_induction_on generalizing o rest with
  | _ n ih =>
    by_cases hend : rest = []
    · refine ⟨[], .done fun cs buf => ?_, hend.symm⟩
      have hread := (h.print cs).read hn buf
      rw [hend, List.take_nil] at hread
      rw [hread]
      exact congrArg (fun o' => some ((0, buf), o')) (advance_zero ..)
    · have hpos : 0 < rest.length := List.length_pos_iff.2 hend
      have htake : (rest.take nbytes.toInt.toNat).length = min nbytes.toInt.toNat rest.length :=
        List.length_take
      obtain ⟨pieces, hpieces, hflat⟩ := ih _ (by rw [List.length_drop]; omega)
        (h.advance (n := (rest.take nbytes.toInt.toNat).length) (by omega)) rfl
      refine ⟨rest.take nbytes.toInt.toNat :: pieces, .more ?_ (by omega) (fun cs buf => ?_)
        (h.advance_stdout _) rfl hpieces, ?_⟩
      · intro hnil
        rw [hnil, List.length_nil] at htake
        omega
      · exact (h.print cs).read hn buf
      · rw [List.flatten_cons, hflat, take_append_drop_length]

/-- The directory is delivered name by name. -/
lemma DirAt.stream {names : List Str} (h : DirAt img o fd names) (hn : 32 ≤ nbytes.toInt)
    (hne : ∀ name ∈ names, name ≠ []) : Stream img fd nbytes o names := by
  have h0 : 0 ≤ nbytes := Int32.le_iff_toInt_le.2 (by simp only [Int32.toInt_zero]; omega)
  induction names generalizing o with
  | nil => exact .done fun cs buf => (h.print cs).read_nil h0 buf
  | cons name names ih =>
    obtain ⟨-, hnext, hle⟩ := h.read_cons h0 noBuf
    refine .more (hne name (List.mem_cons_self ..)) (by omega) (fun cs buf => ?_)
      (h.advance_stdout 1) rfl (ih hnext fun name' h' => hne name' (List.mem_cons_of_mem _ h'))
    exact ((h.print cs).read_cons h0 buf).1

/-- The RTC delivers nothing. -/
lemma rtc_stream (h : OpenWith o fd .rtc) (hn : 0 ≤ nbytes) (hrate : o.rate ≠ 0) :
    Stream img fd nbytes o [] := by
  refine .done fun cs buf => ?_
  rw [(h.print cs).serve_read hn, Own.readFrom, (h.print cs).ops]
  exact if_neg hrate

end Streams

/-! ### Texts -/

/-- The descriptor stands in a file with the bytes `rest` left, or it is the RTC, which delivers
nothing. -/
def Delivers (img : Image) (o : Own) (fd : Int32) (rest : Str) : Prop :=
  FileAt img o fd rest ∨ OpenWith o fd .rtc ∧ o.rate ≠ 0 ∧ rest = []

section Texts

variable {img : Image} {o : Own} {fd nbytes : Int32} {rest : Str}

lemma Delivers.openWith (h : Delivers img o fd rest) : ∃ driver, OpenWith o fd driver := by
  rcases h with h | ⟨h, -, -⟩
  · exact ⟨_, h.toOpenWith⟩
  · exact ⟨_, h⟩

lemma Delivers.print (h : Delivers img o fd rest) (cs : Str) : Delivers img (o.print cs) fd rest := by
  rcases h with h | ⟨h, hrate, hrest⟩
  · exact Or.inl (h.print cs)
  · exact Or.inr ⟨h.print cs, hrate, hrest⟩

/-- **A read** delivers as much as is asked for, or all that is left. -/
lemma Delivers.read (h : Delivers img o fd rest) (hn : 0 < nbytes) (buf : Buf) :
    o.serve img (.read fd buf nbytes) =
        some ((Int32.ofNat (rest.take nbytes.toInt.toNat).length,
          store buf (rest.take nbytes.toInt.toNat)),
          o.advance fd (rest.take nbytes.toInt.toNat).length) ∧
      Delivers img (o.advance fd (rest.take nbytes.toInt.toNat).length) fd
        (rest.drop (rest.take nbytes.toInt.toNat).length) := by
  rcases h with h | ⟨h, hrate, rfl⟩
  · exact ⟨h.read hn buf, Or.inl (h.advance (List.length_take_le' ..))⟩
  · rw [List.take_nil, List.length_nil, advance_zero]
    refine ⟨?_, Or.inr ⟨h, hrate, List.drop_nil⟩⟩
    rw [h.serve_read (Int32.le_of_lt hn), Own.readFrom, h.ops]
    exact if_neg hrate

end Texts

/-! ### Opening -/

/-- The state with an entry of the directory open as the descriptor `i`. -/
def Own.opened (o : Own) (i : ℕ) (d : DirEntry) (driver : Driver) : Own :=
  { o with
    fds := Function.update o.fds i ⟨some driver, d.inodeNum, 0, 1⟩
    rate := if driver = .rtc then 2 else o.rate }

/-- What can be read from an entry. -/
def entryText (img : Image) (d : DirEntry) : Str :=
  match driverOf d.fileType with
  | some .file => contents img (img.inodes d.inodeNum.toNat)
  | some .dir => (img.entries.map DirEntry.name).flatten
  | _ => []

/-- An entry of a known type that can be read to its end. -/
structure EntryOk (img : Image) (d : DirEntry) : Prop where
  known : (driverOf d.fileType).isSome
  file : driverOf d.fileType = some .file →
    d.inodeNum < img.numInodes ∧ Readable img (img.inodes d.inodeNum.toNat)
  dir : driverOf d.fileType = some .dir → ∀ name ∈ img.entries.map DirEntry.name, name ≠ []

/-- The descriptors 0 and 1 are in use, and another one is free. -/
structure Own.Room (o : Own) (i : ℕ) : Prop where
  stdin : (o.fds 0).flags ≠ 0
  stdout : o.Stdout
  vacant : vacantFrom o.fds 7 0 = some i

section Opening

variable {img : Image} {o : Own} {i : ℕ} {d : DirEntry} {driver : Driver}

lemma Own.Room.range (h : o.Room i) : 2 ≤ i ∧ i ≤ 7 := by
  obtain ⟨-, hle, hflags, -⟩ := (vacantFrom_spec _ 7 0).1 i h.vacant
  refine ⟨?_, by omega⟩
  by_contra hlt
  have hi : i = 0 ∨ i = 1 := by omega
  rcases hi with rfl | rfl
  · exact h.stdin hflags
  · exact h.stdout.flags hflags

lemma Own.Room.fd (h : o.Room i) : (2 : Int32) ≤ Int32.ofNat i ∧ Int32.ofNat i < 8 ∧
    fdIndex (Int32.ofNat i) = i := by
  obtain ⟨h2, h7⟩ := h.range
  have hint := toInt_ofNat (n := i) (by omega)
  refine ⟨Int32.le_iff_toInt_le.2 ?_, Int32.lt_iff_toInt_lt.2 ?_, ?_⟩
  · rw [hint]
    exact Int.ofNat_le.2 h2
  · rw [hint]
    exact Int.ofNat_lt.2 (Nat.lt_succ_of_le h7)
  · rw [fdIndex, hint, Int.toNat_natCast]

lemma Own.Room.fd_ne (h : o.Room i) : Int32.ofNat i ≠ -1 := by
  intro heq
  have h2 := h.fd.1
  rw [heq] at h2
  exact absurd h2 (by decide)

lemma Own.Room.opened_stdout (h : o.Room i) : (o.opened i d driver).Stdout := by
  have h2 := h.range.1
  exact h.stdout.congr (Function.update_of_ne (show 1 ≠ i by omega) ..)

/-- `open` of an entry of a known type. -/
lemma serve_opened {filename : Str} (h : o.Room i)
    (hname : readDentryByName img filename = some d) (hd : driverOf d.fileType = some driver) :
    o.serve img (.openFile filename) = some ((Int32.ofNat i, noBuf), o.opened i d driver) := by
  rw [Own.serve, hname]
  dsimp only
  rw [Own.openEntry, h.vacant, hd]
  rfl

lemma Own.Room.openWith (h : o.Room i) (d : DirEntry) (driver : Driver) :
    OpenWith (o.opened i d driver) (Int32.ofNat i) driver ∧
      (o.opened i d driver).fds (fdIndex (Int32.ofNat i)) = ⟨some driver, d.inodeNum, 0, 1⟩ := by
  obtain ⟨h2, h8, hindex⟩ := h.fd
  have hself : (o.opened i d driver).fds (fdIndex (Int32.ofNat i)) =
      ⟨some driver, d.inodeNum, 0, 1⟩ := by
    rw [hindex]
    exact Function.update_self ..
  refine ⟨⟨⟨h2, h8⟩, ?_, ?_⟩, hself⟩
  · rw [hself]
  · rw [hself]
    exact (by decide : (1 : UInt32) ≠ 0)

/-- A file that was just opened. -/
lemma Own.Room.fileAt (h : o.Room i) (hok : EntryOk img d)
    (hd : driverOf d.fileType = some .file) : FileAt img (o.opened i d .file) (Int32.ofNat i)
      (contents img (img.inodes d.inodeNum.toNat)) := by
  obtain ⟨hopen, hself⟩ := h.openWith d .file
  obtain ⟨hinode, hreadable⟩ := hok.file hd
  refine ⟨hopen, ?_, ?_, ?_, ?_⟩
  · rw [hself]
    exact hinode
  · rw [hself]
    exact hreadable
  · rw [hself]
    exact UInt32.le_iff_toNat_le.2 (Nat.zero_le _)
  · rw [hself]
    rfl

/-- The directory, just opened. -/
lemma Own.Room.dirAt (h : o.Room i) (d : DirEntry) :
    DirAt img (o.opened i d .dir) (Int32.ofNat i) (img.entries.map DirEntry.name) := by
  obtain ⟨hopen, hself⟩ := h.openWith d .dir
  refine ⟨hopen, ?_, ?_⟩
  · rw [hself]
    exact UInt32.le_iff_toNat_le.2 (Nat.zero_le _)
  · rw [hself]
    rfl

/-- **Everything in an entry is delivered** to a loop of reads of at least 32 bytes. -/
theorem Own.Room.stream (h : o.Room i) (hok : EntryOk img d)
    (hd : driverOf d.fileType = some driver) {nbytes : Int32} (hn : 32 ≤ nbytes.toInt) :
    ∃ pieces, Stream img (Int32.ofNat i) nbytes (o.opened i d driver) pieces ∧
      pieces.flatten = entryText img d := by
  have hpos : 0 < nbytes := Int32.lt_iff_toInt_lt.2 (by simp only [Int32.toInt_zero]; omega)
  rcases driverOf_cases hd with ⟨-, rfl⟩ | ⟨-, rfl⟩ | ⟨-, rfl⟩
  · have hrate : (o.opened i d .rtc).rate ≠ 0 := (by decide : (2 : Int32) ≠ 0)
    refine ⟨[], rtc_stream (h.openWith d .rtc).1 (Int32.le_of_lt hpos) hrate, ?_⟩
    rw [entryText, hd]
    rfl
  · refine ⟨_, (h.dirAt d).stream hn (hok.dir hd), ?_⟩
    rw [entryText, hd]
  · obtain ⟨pieces, hpieces, hflat⟩ := (h.fileAt hok hd).stream hpos
    refine ⟨pieces, hpieces, ?_⟩
    rw [hflat, entryText, hd]

end Opening

end Userland

end WnajOS
