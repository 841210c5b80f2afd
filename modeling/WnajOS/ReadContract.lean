import WnajOS.Descriptors
import WnajOS.FileSystem.Sequential

/-!
# The contract of `syscall_read`

Every driver is reached through the same call, and its callers rely on one contract: a
successful read of `nbytes` bytes returns a count between 0 and `nbytes` and replaces exactly
that many bytes at the front of the buffer.  The terminal and the RTC keep it always.  A
directory keeps it when the next name fits, since `dir_read` copies the whole name, and a
regular file keeps it for a positive size inside the file and at its end: with size 0 and
beyond its end `file_read` takes the distance to the end for the count.
-/

namespace WnajOS

/-! ### The contract -/

/-- The contract of a read: the bytes stored do not depend on the buffer. -/
def ReadContract (img : Image) (k : Kernel) (fd nbytes : Int32) : Prop :=
  ∃ out : Buf, ∀ buf r buf' k', syscallRead img k fd (some buf) nbytes = .done (r, some buf', k') →
    r ≠ -1 → 0 ≤ r.toInt ∧ r.toInt ≤ nbytes.toInt ∧ buf' = buf.put 0 r.toInt.toNat out

/-- The entries and sizes for which the contract is kept. -/
def KeepsContract (img : Image) (e : FdEntry) (nbytes : Int32) : Prop :=
  match e.fileOps with
  | some .file =>
    (e.filePos < (img.inodes e.inode.toNat).length ∧ 0 < nbytes) ∨
      e.filePos = (img.inodes e.inode.toNat).length ∨
      e.filePos = (img.inodes e.inode.toNat).length + 1
  | some .dir =>
    img.numDirEntries ≤ e.filePos ∨
      (min (strlen (img.dirEntries e.filePos.toNat).bytes) maxFilenameLen : ℕ) ≤ nbytes.toInt
  | _ => True

/-- An image whose files are well formed: the entries of files have inodes of the image, and
the lengths and block indices of the inodes are valid. -/
structure WellFormed (img : Image) : Prop where
  inode : ∀ i < img.numDirEntries.toNat, (img.dirEntries i).fileType ≠ 0 →
    (img.dirEntries i).fileType ≠ 1 → (img.dirEntries i).inodeNum < img.numInodes
  file : ∀ i < img.numInodes.toNat, FileOk img (img.inodes i)

/-! ### The files of a reachable state -/

/-- The entries 0 and 1 are in use and not files; an open file has an inode of the image. -/
structure FilesOk (img : Image) (fds : FdArr) : Prop where
  low : ∀ i < 2, (fds i).flags ≠ 0 ∧ (fds i).fileOps ≠ some .file
  inode : ∀ i, (fds i).flags ≠ 0 → (fds i).fileOps = some .file → i < 8 →
    (fds i).inode < img.numInodes

lemma setupFd_filesOk (img : Image) (fds : FdArr) : FilesOk img (setupFd fds) := by
  have hok := setupFd_ok fds
  refine ⟨fun i hi => ?_, fun i hflags hops h8 => ?_⟩
  · interval_cases i
    · rw [hok.stdin]
      decide
    · rw [hok.stdout]
      decide
  · rcases Nat.lt_or_ge i 2 with hi | hi
    · interval_cases i
      · rw [hok.stdin] at hops
        exact absurd hops (by decide)
      · rw [hok.stdout] at hops
        exact absurd hops (by decide)
    · rw [setupFd, if_neg (by omega), if_neg (by omega),
        if_pos (by simpa [maxFdArrSize] using h8)] at hflags
      exact absurd rfl hflags

/-- An entry that opens as a file has a type whose inode is one of the image. -/
lemma newEntry_file {e : FdEntry} {d : DirEntry} (h : (newEntry e d).fileOps = some .file) :
    d.fileType ≠ 0 ∧ d.fileType ≠ 1 := by
  constructor
  · intro h0
    rw [newEntry, driverOf, if_pos h0] at h
    exact absurd h (by simp)
  · intro h1
    rw [newEntry, driverOf, if_neg (by rw [h1]; decide), if_pos h1] at h
    exact absurd h (by simp)

lemma FilesOk.change {img : Image} (hwf : WellFormed img) {fds fds' : FdArr} {c : Call}
    (h : FilesOk img fds) (hc : FdsChange img fds c fds') : FilesOk img fds' := by
  cases hc with
  | same => exact h
  | @opened filename m d hm hd =>
    obtain ⟨j, hj, rfl⟩ := (readDentryByName_spec hd).1
    obtain ⟨-, -, hm0, -⟩ := (vacantFrom_spec fds 7 0).1 m hm
    have hm2 : 2 ≤ m := by
      by_contra hlt
      exact (h.low m (by omega)).1 hm0
    refine ⟨fun i hi => ?_, fun i hflags hops h8 => ?_⟩
    · rw [Function.update_of_ne (by omega)]
      exact h.low i hi
    · by_cases hi : i = m
      · subst hi
        rw [Function.update_self] at hops ⊢
        obtain ⟨h0, h1⟩ := newEntry_file hops
        exact hwf.inode j hj h0 h1
      · rw [Function.update_of_ne hi] at hflags hops ⊢
        exact h.inode i hflags hops h8
  | @closed fd h2 h8 =>
    refine ⟨fun i hi => ?_, fun i hflags hops hi8 => ?_⟩
    · rw [Function.update_of_ne (by omega)]
      exact h.low i hi
    · by_cases hi : i = fdIndex fd
      · subst hi
        rw [Function.update_self] at hflags
        exact absurd rfl hflags
      · rw [Function.update_of_ne hi] at hflags hops ⊢
        exact h.inode i hflags hops hi8
  | @moved fd nbytes buf h8 hflags hops pos =>
    refine ⟨fun i hi => ?_, fun i hfl hop hi8 => ?_⟩
    · by_cases hif : i = fdIndex fd
      · subst hif
        rw [Function.update_self]
        exact h.low _ hi
      · rw [Function.update_of_ne hif]
        exact h.low i hi
    · by_cases hif : i = fdIndex fd
      · subst hif
        rw [Function.update_self] at hfl hop ⊢
        exact h.inode _ hfl hop hi8
      · rw [Function.update_of_ne hif] at hfl hop ⊢
        exact h.inode i hfl hop hi8

/-! ### The contract of a read whose result is known -/

section Contract

variable {img : Image} {k : Kernel} {fd nbytes : Int32}

/-- On an open descriptor and for a size that is not negative, `syscall_read` is the call of
the driver. -/
lemma syscallRead_open (hfd : ¬(fd < 0 ∨ fd ≥ 8 ∨ (k.pcb.fdArr (fdIndex fd)).flags = 0))
    (hn : 0 ≤ nbytes) (buf : Buf) :
    syscallRead img k fd (some buf) nbytes
      = (driverRead img k fd buf nbytes).map fun (ret, buf, k) => (ret, some buf, k) := by
  have hneg : ¬nbytes < 0 := Int32.not_lt.2 hn
  exact if_neg (by tauto)

/-- The contract of a read whose driver always returns `r` and leaves the buffer `f buf`. -/
lemma readContract_iff (hfd : ¬(fd < 0 ∨ fd ≥ 8 ∨ (k.pcb.fdArr (fdIndex fd)).flags = 0))
    (hn : 0 ≤ nbytes) {r : Int32} {f : Buf → Buf} {g : Buf → Kernel}
    (h : ∀ buf, driverRead img k fd buf nbytes = .done (r, f buf, g buf)) :
    ReadContract img k fd nbytes ↔
      (r ≠ -1 → ∃ out : Buf, ∀ buf, 0 ≤ r.toInt ∧ r.toInt ≤ nbytes.toInt ∧
        f buf = buf.put 0 r.toInt.toNat out) := by
  have hread : ∀ buf, syscallRead img k fd (some buf) nbytes = .done (r, some (f buf), g buf) := by
    intro buf
    rw [syscallRead_open hfd hn, h]
    rfl
  constructor
  · rintro ⟨out, hout⟩ hr
    exact ⟨out, fun buf => hout buf r (f buf) (g buf) (hread buf) hr⟩
  · intro hr
    by_cases hne : r = -1
    · refine ⟨fun _ => 0, fun buf r' buf' k' hk' hr' => ?_⟩
      rw [hread] at hk'
      injection hk' with hk'
      simp only [Prod.mk.injEq] at hk'
      exact absurd (hk'.1 ▸ hne) hr'
    · obtain ⟨out, hout⟩ := hr hne
      refine ⟨out, fun buf r' buf' k' hk' hr' => ?_⟩
      rw [hread] at hk'
      injection hk' with hk'
      simp only [Prod.mk.injEq, Option.some.injEq] at hk'
      obtain ⟨rfl, rfl, -⟩ := hk'
      exact hout buf

/-- A read that never returns keeps the contract. -/
lemma readContract_of_not_done
    (h : ∀ buf r buf' k', syscallRead img k fd (some buf) nbytes ≠ .done (r, buf', k')) :
    ReadContract img k fd nbytes :=
  ⟨fun _ => 0, fun buf r buf' k' hk' => absurd hk' (h buf r (some buf') k')⟩

/-! ### The terminal -/

lemma toInt_ofNat_of_lt {n : ℕ} (h : n < 2 ^ 31) : (Int32.ofNat n).toInt = n :=
  Int32.toInt_ofNat_of_lt h

lemma memcpy_eq_put (dest src : Buf) (n : ℕ) : memcpy dest src n = dest.put 0 n src := by
  funext i
  by_cases hi : i < n
  · rw [Buf.put_of_lt hi, memcpy, if_pos hi]
  · rw [Buf.put_of_ge (by omega), memcpy, if_neg hi]

/-- A line never exceeds the size that is read. -/
lemma readContract_stdin
    (hfd : ¬(fd < 0 ∨ fd ≥ 8 ∨ (k.pcb.fdArr (fdIndex fd)).flags = 0)) (hn : 0 ≤ nbytes)
    (hops : (k.pcb.fdArr (fdIndex fd)).fileOps = some .stdin) : ReadContract img k fd nbytes := by
  have hn0 : 0 ≤ nbytes.toInt := Int32.le_iff_toInt_le.1 hn
  set inp := (k.terms k.scheduledTerm).input with hinp
  by_cases heol : inp.eol = true
  · have hle : (readLen inp nbytes : ℤ) ≤ nbytes.toInt := by
      rw [readLen]
      split <;> omega
    have hlen : readLen inp nbytes < 2 ^ 31 := by
      have hmax := Int32.toInt_lt nbytes
      omega
    have hread : ∀ buf, driverRead img k fd buf nbytes
        = .done (Int32.ofNat (readLen inp nbytes), memcpy buf inp.buffer (readLen inp nbytes),
          k.setInput { inp with eol := false, idx := 0 }) := by
      intro buf
      rw [driverRead, hops]
      dsimp only
      rw [if_pos heol]
      rfl
    rw [readContract_iff hfd hn hread]
    refine fun _ => ⟨inp.buffer, fun buf => ?_⟩
    rw [toInt_ofNat_of_lt hlen, Int.toNat_natCast]
    exact ⟨by omega, hle, memcpy_eq_put _ _ _⟩
  · refine readContract_of_not_done fun buf r buf' k' h => ?_
    rw [syscallRead_open hfd hn, driverRead, hops] at h
    dsimp only at h
    rw [if_neg heol] at h
    exact absurd h (by simp [Outcome.map])

/-- The RTC returns 0, or faults on the rate 0. -/
lemma readContract_rtc (hfd : ¬(fd < 0 ∨ fd ≥ 8 ∨ (k.pcb.fdArr (fdIndex fd)).flags = 0))
    (hn : 0 ≤ nbytes) (hops : (k.pcb.fdArr (fdIndex fd)).fileOps = some .rtc) :
    ReadContract img k fd nbytes := by
  cases hrtc : k.rtc.rtcRead k.scheduledTerm with
  | none =>
    refine readContract_of_not_done fun buf r buf' k' hread => ?_
    rw [syscallRead_open hfd hn, driverRead, hops] at hread
    dsimp only at hread
    rw [hrtc] at hread
    exact absurd hread (by simp [Outcome.map])
  | some rtc =>
    have hread : ∀ buf, driverRead img k fd buf nbytes
        = .done (0, buf, { k with rtc := rtc.rtcReadEnd k.scheduledTerm }) := by
      intro buf
      rw [driverRead, hops]
      dsimp only
      rw [hrtc]
    rw [readContract_iff hfd hn hread]
    exact fun _ => ⟨fun _ => 0, fun buf =>
      ⟨le_rfl, Int32.le_iff_toInt_le.1 hn, (Buf.put_zero _ _ _).symm⟩⟩

/-! ### Directories -/

/-- A directory keeps the contract exactly at its end and when the next name fits. -/
lemma readContract_dir
    (hfd : ¬(fd < 0 ∨ fd ≥ 8 ∨ (k.pcb.fdArr (fdIndex fd)).flags = 0)) (hn : 0 ≤ nbytes)
    (hops : (k.pcb.fdArr (fdIndex fd)).fileOps = some .dir) :
    ReadContract img k fd nbytes ↔
      (img.numDirEntries ≤ (k.pcb.fdArr (fdIndex fd)).filePos ∨
        (min (strlen (img.dirEntries (k.pcb.fdArr (fdIndex fd)).filePos.toNat).bytes)
          maxFilenameLen : ℕ) ≤ nbytes.toInt) := by
  have hn0 : 0 ≤ nbytes.toInt := Int32.le_iff_toInt_le.1 hn
  have hbad : ¬(fd < 0 ∨ fd ≥ 8 ∨ nbytes < 0) := by
    have hneg : ¬nbytes < 0 := Int32.not_lt.2 hn
    tauto
  by_cases hend : img.numDirEntries ≤ (k.pcb.fdArr (fdIndex fd)).filePos
  · have hread : ∀ buf, driverRead img k fd buf nbytes
        = .done (0, buf, k.setFds k.pcb.fdArr) := by
      intro buf
      have hdir : dirRead img k.pcb.fdArr fd buf nbytes = ⟨0, buf, k.pcb.fdArr⟩ := by
        rw [dirRead, if_neg hbad]
        exact if_pos hend
      rw [driverRead, hops]
      dsimp only
      rw [hdir]
    refine iff_of_true ?_ (Or.inl hend)
    rw [readContract_iff hfd hn hread]
    exact fun _ => ⟨fun _ => 0, fun buf => ⟨le_rfl, hn0, (Buf.put_zero _ _ _).symm⟩⟩
  · -- the next entry is copied whole, up to 32 bytes
    obtain ⟨d, hd⟩ : ∃ d, img.dirEntries (k.pcb.fdArr (fdIndex fd)).filePos.toNat = d := ⟨_, rfl⟩
    obtain ⟨len, hlen⟩ : ∃ len, min (strlen d.bytes) maxFilenameLen = len := ⟨_, rfl⟩
    have hlt : (k.pcb.fdArr (fdIndex fd)).filePos < img.numDirEntries := UInt32.not_le.1 hend
    have hlen32 : len ≤ 32 := by
      rw [← hlen, maxFilenameLen]
      omega
    have hread : ∀ buf, driverRead img k fd buf nbytes
        = .done (Int32.ofNat len, strncpy buf d.bytes len,
          k.setFds (Function.update k.pcb.fdArr (fdIndex fd) { k.pcb.fdArr (fdIndex fd) with
            filePos := (k.pcb.fdArr (fdIndex fd)).filePos + 1 })) := by
      intro buf
      have hdir : dirRead img k.pcb.fdArr fd buf nbytes
          = ⟨Int32.ofNat len, strncpy buf d.bytes len,
            Function.update k.pcb.fdArr (fdIndex fd) { k.pcb.fdArr (fdIndex fd) with
              filePos := (k.pcb.fdArr (fdIndex fd)).filePos + 1 }⟩ := by
        rw [dirRead, if_neg hbad]
        dsimp only
        rw [if_neg hend, readDentryByIndex, if_pos hlt, hd]
        dsimp only
        rw [hlen]
      rw [driverRead, hops]
      dsimp only
      rw [hdir]
    have hret : (Int32.ofNat len).toInt = len := toInt_ofNat_of_lt (by omega)
    have hne : Int32.ofNat len ≠ -1 := by
      intro heq
      rw [heq] at hret
      have hneg : (-1 : Int32).toInt = -1 := by decide
      omega
    rw [readContract_iff hfd hn hread, hret, hd, hlen]
    constructor
    · intro h
      obtain ⟨out, hout⟩ := h hne
      exact Or.inr (hout fun _ => 0).2.1
    · rintro (hge | hle)
      · exact absurd hge hend
      · refine fun _ => ⟨fun i => d.bytes.byteAt i, fun buf => ⟨by omega, hle, ?_⟩⟩
        rw [Int.toNat_natCast]
        funext i
        by_cases hi : i < len
        · have hstr : i < strlen d.bytes := by omega
          rw [Buf.put_of_lt hi, strncpy_apply, if_pos hi, if_pos hstr]
        · rw [Buf.put_of_ge (by omega), strncpy_apply, if_neg hi]

/-! ### Regular files -/

/-- The driver's `read` of a file, from what `file_read` returns. -/
lemma driverRead_file (hops : (k.pcb.fdArr (fdIndex fd)).fileOps = some .file) {buf : Buf}
    {r : ReadRes} (hr : fileRead img k.pcb.fdArr fd buf nbytes = r) :
    driverRead img k fd buf nbytes = .done (r.ret, r.buf, k.setFds r.fds) := by
  rw [driverRead, hops]
  dsimp only
  rw [hr]

/-- When `read_data` returns 0 without storing a byte, `file_read` returns the distance to the
end of the file; the contract is kept when it is 0, and void when it reads as -1. -/
lemma readContract_of_zero {e : FdEntry} (he : k.pcb.fdArr (fdIndex fd) = e)
    (hrange : ¬(fd < 2 ∨ fd ≥ 8)) (hfd : ¬(fd < 0 ∨ fd ≥ 8 ∨ e.flags = 0)) (hn : 0 ≤ nbytes)
    (hops : e.fileOps = some .file)
    (hz : ∀ buf, (readData img e.inode e.filePos buf nbytes.toUInt32).ret = 0 ∧
      (readData img e.inode e.filePos buf nbytes.toUInt32).buf = buf) :
    ReadContract img k fd nbytes ↔
      ((img.inodes e.inode.toNat).length - e.filePos).toInt32 = -1 ∨
        (img.inodes e.inode.toNat).length - e.filePos = 0 := by
  obtain ⟨rest, hrest⟩ : ∃ rest, (img.inodes e.inode.toNat).length - e.filePos = rest := ⟨_, rfl⟩
  subst he
  have hread : ∀ buf, driverRead img k fd buf nbytes = .done (rest.toInt32, buf,
      k.setFds (Function.update k.pcb.fdArr (fdIndex fd) { k.pcb.fdArr (fdIndex fd) with
        filePos := (k.pcb.fdArr (fdIndex fd)).filePos + rest })) := by
    intro buf
    have hfr : fileRead img k.pcb.fdArr fd buf nbytes = _ :=
      fileRead_eof hrange rfl (by rw [(hz buf).1]; rfl)
    rw [(hz buf).2, hrest] at hfr
    exact driverRead_file hops hfr
  have hn0 : 0 ≤ nbytes.toInt := Int32.le_iff_toInt_le.1 hn
  rw [readContract_iff hfd hn hread, hrest]
  constructor
  · intro h
    by_contra hno
    push Not at hno
    obtain ⟨out, hout⟩ := h hno.1
    have hpos : 0 < rest.toInt32.toInt := by
      refine lt_of_le_of_ne (hout out).1 fun h0 => hno.2 ?_
      have h0' : rest.toInt32 = 0 := Int32.toInt_inj.1 h0.symm
      rw [← UInt32.toUInt32_toInt32 rest, h0']
      rfl
    -- a byte of the buffer that is not the one the read would have stored
    have hbyte := congrFun (hout fun _ => out 0 + 1).2.2 0
    rw [Buf.put_of_lt (by omega)] at hbyte
    exact absurd hbyte (by simp)
  · rintro (hm1 | h0)
    · exact fun hne => absurd hm1 hne
    · subst h0
      exact fun _ => ⟨fun _ => 0, fun buf => ⟨le_rfl, hn0, (Buf.put_zero _ _ _).symm⟩⟩

/-- When `read_data` fails, so does `file_read`. -/
lemma readContract_of_error {e : FdEntry} (he : k.pcb.fdArr (fdIndex fd) = e)
    (hrange : ¬(fd < 2 ∨ fd ≥ 8)) (hfd : ¬(fd < 0 ∨ fd ≥ 8 ∨ e.flags = 0)) (hn : 0 ≤ nbytes)
    (hops : e.fileOps = some .file)
    (herr : ∀ buf, readData img e.inode e.filePos buf nbytes.toUInt32 = ⟨-1, buf, 0⟩) :
    ReadContract img k fd nbytes := by
  subst he
  have hread : ∀ buf, driverRead img k fd buf nbytes = .done (-1, buf,
      k.setFds (Function.update k.pcb.fdArr (fdIndex fd) { k.pcb.fdArr (fdIndex fd) with
        filePos := (k.pcb.fdArr (fdIndex fd)).filePos + nbytes.toUInt32 })) := by
    intro buf
    have hfr : fileRead img k.pcb.fdArr fd buf nbytes = _ :=
      fileRead_full hrange (herr buf) (by decide : (-1 : Int32).toUInt32 ≠ 0)
    exact driverRead_file hops hfr
  rw [readContract_iff hfd hn hread]
  exact fun hne => absurd rfl hne

/-- A read of a positive size inside a file keeps the contract. -/
lemma readContract_inside {e : FdEntry} (he : k.pcb.fdArr (fdIndex fd) = e)
    (hrange : ¬(fd < 2 ∨ fd ≥ 8)) (hfd : ¬(fd < 0 ∨ fd ≥ 8 ∨ e.flags = 0)) (hn : 0 < nbytes)
    (hops : e.fileOps = some .file) (hino : e.inode < img.numInodes)
    (hfile : FileOk img (img.inodes e.inode.toNat))
    (hpos : e.filePos < (img.inodes e.inode.toNat).length) : ReadContract img k fd nbytes := by
  subst he
  obtain ⟨e, he⟩ : ∃ e, k.pcb.fdArr (fdIndex fd) = e := ⟨_, rfl⟩
  obtain ⟨m, hm⟩ : ∃ m, min nbytes.toInt.toNat
    ((img.inodes e.inode.toNat).length.toNat - e.filePos.toNat) = m := ⟨_, rfl⟩
  obtain ⟨out, hout⟩ : ∃ out : Buf, out =
    fun j => fileByte img (img.inodes e.inode.toNat) (e.filePos.toNat + j) := ⟨_, rfl⟩
  have hn0 : 0 < nbytes.toInt := Int32.lt_iff_toInt_lt.1 hn
  have hmax := Int32.toInt_lt nbytes
  have hread : ∀ buf, driverRead img k fd buf nbytes = .done (Int32.ofNat m, buf.put 0 m out,
      k.setFds (fileRead img k.pcb.fdArr fd buf nbytes).fds) := by
    intro buf
    have hspec : FileReadSpec img _ k.pcb.fdArr fd buf (fileRead img k.pcb.fdArr fd buf nbytes) _ :=
      fileRead_spec buf hrange hino hfile hn hpos
    rw [he, hm] at hspec
    have hret : (fileRead img k.pcb.fdArr fd buf nbytes).ret = Int32.ofNat m := by
      rw [← Int32.toInt_inj, hspec.ret, toInt_ofNat_of_lt (by omega)]
    have hbuf := hspec.buf
    rw [he, ← hout] at hbuf
    rw [driverRead_file hops rfl, hret, hbuf]
  rw [readContract_iff hfd (Int32.le_of_lt hn) hread, toInt_ofNat_of_lt (by omega)]
  exact fun _ => ⟨out, fun buf => ⟨by omega, by omega, by rw [Int.toNat_natCast]⟩⟩

/-- The distance to the end that is 0 or reads as -1, in the arithmetic of `uint32_t`. -/
lemma distance_iff {L pos : UInt32} (hL : L.toNat < 2 ^ 31) :
    ((L - pos).toInt32 = -1 ∨ L - pos = 0) ↔ (pos = L ∨ pos = L + 1) := by
  have hmax := pos.toNat_lt
  have hrest : (L - pos).toNat = (2 ^ 32 - pos.toNat + L.toNat) % 2 ^ 32 := UInt32.toNat_sub L pos
  have hL1 : (L + 1).toNat = L.toNat + 1 := by
    rw [UInt32.toNat_add, UInt32.toNat_one, Nat.mod_eq_of_lt (by omega)]
  have hminus : (L - pos).toInt32 = -1 ↔ (L - pos).toNat = 2 ^ 32 - 1 := by
    constructor
    · intro h
      have h' := congrArg Int32.toUInt32 h
      rw [UInt32.toUInt32_toInt32] at h'
      rw [h']
      rfl
    · intro h
      have h' : L - pos = (-1 : Int32).toUInt32 := UInt32.toNat_inj.1 (h.trans rfl)
      rw [h', Int32.toInt32_toUInt32]
  rw [hminus, ← UInt32.toNat_inj, ← UInt32.toNat_inj, ← UInt32.toNat_inj, hrest, hL1,
    UInt32.toNat_zero]
  omega

/-- A regular file keeps the contract exactly for a positive size inside it and at its end
(and one byte beyond, where the count it returns is the error value). -/
lemma readContract_file {e : FdEntry} (he : k.pcb.fdArr (fdIndex fd) = e) (h2 : 2 ≤ fdIndex fd)
    (hfd : ¬(fd < 0 ∨ fd ≥ 8 ∨ e.flags = 0)) (hn : 0 ≤ nbytes) (hops : e.fileOps = some .file)
    (hino : e.inode < img.numInodes) (hfile : FileOk img (img.inodes e.inode.toNat)) :
    ReadContract img k fd nbytes ↔
      (e.filePos < (img.inodes e.inode.toNat).length ∧ 0 < nbytes) ∨
        e.filePos = (img.inodes e.inode.toNat).length ∨
        e.filePos = (img.inodes e.inode.toNat).length + 1 := by
  have hrange : ¬(fd < 2 ∨ fd ≥ 8) := by
    have hlt2 : fd < 2 ↔ fd.toInt < 2 := Int32.lt_iff_toInt_lt
    rw [fdIndex] at h2
    rw [hlt2]
    rintro (hlt | hge)
    · omega
    · exact hfd (Or.inr (Or.inl hge))
  by_cases hin : e.filePos < (img.inodes e.inode.toNat).length ∧ 0 < nbytes
  · exact iff_of_true (readContract_inside he hrange hfd hin.2 hops hino hfile hin.1) (Or.inl hin)
  · -- what is left are sizes and positions at which there is nothing to read
    rw [or_iff_right hin]
    by_cases hbad : e.filePos ≤ (img.inodes e.inode.toNat).length ∧
        ¬BlockPasses img (img.inodes e.inode.toNat) (e.filePos.toNat / dataBlkSize)
    · -- only the position at the end can be in a block that is not used
      have heq : e.filePos = (img.inodes e.inode.toNat).length := by
        by_contra hne
        have hlt : e.filePos < (img.inodes e.inode.toNat).length :=
          UInt32.lt_of_le_of_ne hbad.1 hne
        exact hbad.2 (hfile.passes (UInt32.lt_iff_toNat_lt.1 hlt))
      exact iff_of_true (readContract_of_error he hrange hfd hn hops fun buf =>
        readData_of_not_begins _ _ hbad.1 fun h => hbad.2 h.2) (Or.inl heq)
    · have hz : ∀ buf, (readData img e.inode e.filePos buf nbytes.toUInt32).ret = 0 ∧
          (readData img e.inode e.filePos buf nbytes.toUInt32).buf = buf := by
        intro buf
        by_cases hle : e.filePos ≤ (img.inodes e.inode.toNat).length
        · have hbegins : Begins img e.inode e.filePos :=
            ⟨inode_ok hino, not_not.1 fun h => hbad ⟨hle, h⟩⟩
          have hnone : nbytes.toUInt32 = 0 ∨ e.filePos = (img.inodes e.inode.toNat).length := by
            by_cases hlt : e.filePos < (img.inodes e.inode.toNat).length
            · -- a size that is not positive is 0
              have h0 : nbytes = 0 := Int32.le_antisymm (Int32.not_lt.1 fun h => hin ⟨hlt, h⟩) hn
              exact Or.inl (by rw [h0]; rfl)
            · exact Or.inr (UInt32.le_antisymm hle (UInt32.not_lt.1 hlt))
          rw [readData_nothing _ _ hle hbegins hnone]
          exact ⟨rfl, rfl⟩
        · rw [readData_past_end _ _ hino (UInt32.not_le.1 hle)]
          exact ⟨rfl, rfl⟩
      rw [readContract_of_zero he hrange hfd hn hops hz, distance_iff hfile.length_lt]

end Contract

/-! ### The contract in every reachable state -/

/-- **When a read keeps the contract.**  In every state that a process can reach after
`setup_fd`, a read of `nbytes ≥ 0` bytes on an open descriptor keeps the contract exactly when
`KeepsContract` holds of its entry: always for the terminal and the RTC, for a directory at
its end or when the next name fits into `nbytes`, and for a regular file when the position is
inside the file and `nbytes` positive, or at the end (or one beyond it). -/
theorem read_contract_iff_keeps (img : Image) (hwf : WellFormed img) (fds : FdArr)
    (k₀ k : Kernel) (hsetup : k₀.pcb.fdArr = setupFd fds)
    (h : Runs.Reach (fdStep img) FdEvent.Ok k₀ k) (fd nbytes : Int32)
    (hopen : 0 ≤ fd.toInt ∧ fd.toInt < 8 ∧ (k.pcb.fdArr (fdIndex fd)).flags ≠ 0)
    (hn : 0 ≤ nbytes) :
    ReadContract img k fd nbytes ↔ KeepsContract img (k.pcb.fdArr (fdIndex fd)) nbytes := by
  have hok : FilesOk img k.pcb.fdArr := by
    refine h.invariant (P := fun k => FilesOk img k.pcb.fdArr)
      (hsetup ▸ setupFd_filesOk img fds) ?_
    intro e k₁ k₂ hk₁ he hs
    obtain ⟨c, hc⟩ := fdStep_change he hs
    exact hk₁.change hwf hc
  have hfd : ¬(fd < 0 ∨ fd ≥ 8 ∨ (k.pcb.fdArr (fdIndex fd)).flags = 0) := by
    have h0 : fd < 0 ↔ fd.toInt < 0 := Int32.lt_iff_toInt_lt
    have h8 : fd ≥ 8 ↔ 8 ≤ fd.toInt := Int32.le_iff_toInt_le
    rw [h0, h8]
    push Not
    exact hopen
  rw [KeepsContract]
  split
  · rename_i hops
    have h2 : 2 ≤ fdIndex fd := by
      by_contra hlt
      exact (hok.low _ (by omega)).2 hops
    have hino := hok.inode _ hopen.2.2 hops (fdIndex_lt hopen.2.1)
    exact readContract_file rfl h2 hfd hn hops hino
      (hwf.file _ (UInt32.lt_iff_toNat_lt.1 hino))
  · rename_i hops
    exact readContract_dir hfd hn hops
  · rename_i hnofile hnodir
    refine iff_of_true ?_ trivial
    rcases hops : (k.pcb.fdArr (fdIndex fd)).fileOps with _ | driver
    · refine readContract_of_not_done fun buf r buf' k' hread => ?_
      rw [syscallRead_open hfd hn, driverRead, hops] at hread
      exact absurd hread (by simp [Outcome.map])
    · cases driver with
      | stdin => exact readContract_stdin hfd hn hops
      | stdout =>
        have hread : ∀ buf, driverRead img k fd buf nbytes = .done (-1, buf, k) := by
          intro buf
          rw [driverRead, hops]
        rw [readContract_iff hfd hn hread]
        exact fun hne => absurd rfl hne
      | dir => exact absurd hops hnodir
      | file => exact absurd hops hnofile
      | rtc => exact readContract_rtc hfd hn hops

lemma sampleImage_wellFormed : WellFormed sampleImage := by
  refine ⟨fun i hi h0 h1 => ?_, fun i hi => ?_⟩
  · have hi' : i < 4 := hi
    interval_cases i
    · exact absurd rfl h1
    · decide
    · decide
    · exact absurd rfl h0
  · have hi' : i < 2 := hi
    interval_cases i
    · exact ⟨by decide, by decide⟩
    · exact ⟨by decide, by decide⟩

/-- A read of 5 bytes from the freshly opened text file. -/
theorem read_contract_iff_keeps_fish :
    ∃ k, fdStep sampleImage (.call (.openFile fishName)) sampleKernel = some k ∧
      ReadContract sampleImage k 2 5 := by
  obtain ⟨k, hk, hentry⟩ := sample_open
  have hentry' : k.pcb.fdArr (fdIndex 2) = ⟨some .file, 1, 0, 1⟩ := hentry
  refine ⟨k, hk, ?_⟩
  refine (read_contract_iff_keeps sampleImage sampleImage_wellFormed (fun _ => ⟨none, 0, 0, 0⟩)
    sampleKernel k rfl (Runs.Reach.single (by trivial) hk) 2 5 ⟨by decide, by decide, ?_⟩
    (by decide)).2 ?_
  · rw [hentry']
    decide
  · rw [hentry']
    exact Or.inl ⟨by decide, by decide⟩

/-- A read of 0 bytes from the freshly opened text file returns 4098. -/
theorem read_contract_fails_fish :
    ∃ k, Runs.Reach (fdStep sampleImage) FdEvent.Ok sampleKernel k ∧ WellFormed sampleImage ∧
      (k.pcb.fdArr (fdIndex 2)).flags ≠ 0 ∧ ¬ReadContract sampleImage k 2 0 := by
  obtain ⟨k, hk, hentry⟩ := sample_open
  have hentry' : k.pcb.fdArr (fdIndex 2) = ⟨some .file, 1, 0, 1⟩ := hentry
  refine ⟨k, Runs.Reach.single (by trivial) hk, sampleImage_wellFormed, by rw [hentry']; decide, ?_⟩
  rw [readContract_file hentry' (by decide) (by decide) (by decide) rfl (by decide)
    ⟨by decide, by decide⟩]
  decide

end WnajOS
