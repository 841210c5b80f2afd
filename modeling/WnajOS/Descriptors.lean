import WnajOS.Calls
import WnajOS.Library.Runs

/-!
# The descriptor array as a table of open files

A process thinks of its descriptors as a finite map: a descriptor in `0 … 7` is free or
stands for an open file, that is a driver, an inode and a position.  `fdTable` reads this map
off `fd_arr`; `Table.open` and `Table.close` say what opening and closing mean for it.  The
calls of the kernel implement the map in every state that a process can reach after
`setup_fd`, provided that the entries of the image have the types 0, 1 and 2.
-/

namespace WnajOS

/-! ### The abstract table -/

/-- An open file. -/
structure OpenFile where
  driver : Driver
  inode : UInt32
  filePos : UInt32
deriving DecidableEq

/-- A table of open files, by descriptor. -/
abbrev Table := ℕ → Option OpenFile

namespace Table

/-- The descriptor `fd` stands for an open file. -/
def IsOpen (T : Table) (fd : Int32) : Prop := 0 ≤ fd.toInt ∧ (T (fdIndex fd)).isSome

/-- `fd` is the lowest free descriptor of `2 … 7`. -/
def LowestFree (T : Table) (fd : ℕ) : Prop :=
  2 ≤ fd ∧ fd < 8 ∧ T fd = none ∧ ∀ j, 2 ≤ j → j < fd → T j ≠ none

/-- All of `2 … 7` are in use. -/
def Full (T : Table) : Prop := ∀ j, 2 ≤ j → j < 8 → T j ≠ none

end Table

/-- The table that `fd_arr` stands for. -/
def fdTable (fds : FdArr) : Table := fun i =>
  if i < maxFdArrSize ∧ (fds i).flags ≠ 0 then
    (fds i).fileOps.map fun driver => ⟨driver, (fds i).inode, (fds i).filePos⟩
  else none

/-! ### The invariant of `fd_arr` -/

/-- The drivers `syscall_open` stores. -/
def Driver.IsFile (driver : Driver) : Prop :=
  driver = .rtc ∨ driver = .dir ∨ driver = .file

/-- What holds of `fd_arr` from `setup_fd` on: the entries 0 and 1 never change, and an entry
in use has one of the drivers that `syscall_open` stores. -/
structure FdsOk (fds : FdArr) : Prop where
  stdin : fds 0 = ⟨some .stdin, 0, 0, 1⟩
  stdout : fds 1 = ⟨some .stdout, 0, 0, 1⟩
  driver : ∀ i, 2 ≤ i → i < 8 → (fds i).flags ≠ 0 →
    ∃ driver, (fds i).fileOps = some driver ∧ driver.IsFile

/-- `setup_fd` leaves a table with the descriptors 0 and 1, whatever was there before. -/
lemma setupFd_ok (fds : FdArr) : FdsOk (setupFd fds) := by
  refine ⟨rfl, rfl, fun i h2 h8 hflags => absurd ?_ hflags⟩
  rw [setupFd, if_neg (by omega), if_neg (by omega), if_pos (by simpa [maxFdArrSize] using h8)]
  rfl

namespace FdsOk

variable {fds : FdArr}

/-- An entry of `2 … 7` may be replaced by a free one or by one with a file driver. -/
lemma update (h : FdsOk fds) {i : ℕ} (h2 : 2 ≤ i) {e : FdEntry}
    (he : e.flags ≠ 0 → ∃ driver, e.fileOps = some driver ∧ driver.IsFile) :
    FdsOk (Function.update fds i e) := by
  refine ⟨?_, ?_, fun j hj2 hj8 hflags => ?_⟩
  · rw [Function.update_of_ne (by omega), h.stdin]
  · rw [Function.update_of_ne (by omega), h.stdout]
  · by_cases hj : j = i
    · subst hj
      rw [Function.update_self] at hflags ⊢
      exact he hflags
    · rw [Function.update_of_ne hj] at hflags ⊢
      exact h.driver j hj2 hj8 hflags

/-- An entry in use has a driver. -/
lemma fileOps_ne_none (h : FdsOk fds) {i : ℕ} (h8 : i < 8) (hflags : (fds i).flags ≠ 0) :
    ∃ driver, (fds i).fileOps = some driver := by
  rcases Nat.lt_or_ge i 2 with hi | hi
  · interval_cases i
    · exact ⟨.stdin, by rw [h.stdin]⟩
    · exact ⟨.stdout, by rw [h.stdout]⟩
  · obtain ⟨driver, hd, -⟩ := h.driver i hi h8 hflags
    exact ⟨driver, hd⟩

end FdsOk

/-! ### The table of an updated array -/

lemma fdTable_update_of_ne {fds : FdArr} {i j : ℕ} {e : FdEntry} (h : j ≠ i) :
    fdTable (Function.update fds i e) j = fdTable fds j := by
  rw [fdTable, fdTable, Function.update_of_ne h]

lemma fdTable_update_self {fds : FdArr} {i : ℕ} {e : FdEntry} (h8 : i < 8)
    (hflags : e.flags ≠ 0) :
    fdTable (Function.update fds i e) i = e.fileOps.map fun d => ⟨d, e.inode, e.filePos⟩ := by
  rw [fdTable, Function.update_self, if_pos ⟨h8, hflags⟩]

/-- In a well-formed array the free descriptors are the entries with `flags == 0`. -/
lemma FdsOk.fdTable_eq_none {fds : FdArr} (h : FdsOk fds) {i : ℕ} (h8 : i < 8) :
    fdTable fds i = none ↔ (fds i).flags = 0 := by
  rw [fdTable]
  constructor
  · intro hnone
    by_contra hflags
    obtain ⟨driver, hd⟩ := h.fileOps_ne_none h8 hflags
    rw [if_pos ⟨h8, hflags⟩, hd] at hnone
    exact absurd hnone (by simp)
  · intro hflags
    rw [if_neg (by simp [hflags])]

lemma fdIndex_lt {fd : Int32} (h : fd.toInt < 8) : fdIndex fd < 8 := by
  rw [fdIndex]
  omega

/-- An open descriptor is one that passes the tests of the system calls. -/
lemma FdsOk.isOpen_iff {fds : FdArr} (h : FdsOk fds) (fd : Int32) :
    (fdTable fds).IsOpen fd ↔ ¬(fd < 0 ∨ fd ≥ 8 ∨ (fds (fdIndex fd)).flags = 0) := by
  have h0 : fd < 0 ↔ fd.toInt < 0 := Int32.lt_iff_toInt_lt
  have h8 : fd ≥ 8 ↔ 8 ≤ fd.toInt := Int32.le_iff_toInt_le
  rw [Table.IsOpen, h0, h8]
  constructor
  · rintro ⟨hnn, hsome⟩ hbad
    have hin : fdIndex fd < maxFdArrSize ∧ (fds (fdIndex fd)).flags ≠ 0 := by
      by_contra hno
      rw [fdTable, if_neg hno] at hsome
      exact absurd hsome (by simp)
    rcases hbad with hneg | hge | hflags
    · omega
    · have := hin.1
      simp only [maxFdArrSize, fdIndex] at this
      omega
    · exact hin.2 hflags
  · intro hno
    push Not at hno
    have hlt := fdIndex_lt hno.2.1
    obtain ⟨driver, hd⟩ := h.fileOps_ne_none hlt hno.2.2
    refine ⟨hno.1, ?_⟩
    rw [fdTable, if_pos ⟨hlt, hno.2.2⟩, hd]
    rfl

/-! ### The search for a vacant entry -/

/-- The search stays inside the array: with `n` entries left after `i` it looks at
`i, …, i + n`, and finds the first vacant one. -/
lemma vacantFrom_spec (fds : FdArr) (n i : ℕ) :
    (∀ m, vacantFrom fds n i = some m →
      i ≤ m ∧ m ≤ i + n ∧ (fds m).flags = 0 ∧ ∀ j, i ≤ j → j < m → (fds j).flags ≠ 0) ∧
    (vacantFrom fds n i = none → ∀ j, i ≤ j → j ≤ i + n → (fds j).flags ≠ 0) := by
  induction n generalizing i with
  | zero =>
    rw [vacantFrom]
    by_cases h0 : (fds i).flags = 0
    · rw [if_pos h0]
      refine ⟨fun m hm => ?_, fun hnone => absurd hnone (by simp)⟩
      obtain rfl := Option.some.inj hm
      exact ⟨le_rfl, by omega, h0, fun j hj hlt => absurd hj (by omega)⟩
    · rw [if_neg h0]
      refine ⟨fun m hm => absurd hm (by simp), fun _ j hj hle => ?_⟩
      obtain rfl : j = i := by omega
      exact h0
  | succ n ih =>
    rw [vacantFrom]
    by_cases h0 : (fds i).flags = 0
    · rw [if_pos h0]
      refine ⟨fun m hm => ?_, fun hnone => absurd hnone (by simp)⟩
      obtain rfl := Option.some.inj hm
      exact ⟨le_rfl, by omega, h0, fun j hj hlt => absurd hj (by omega)⟩
    · rw [if_neg h0]
      refine ⟨fun m hm => ?_, fun hnone j hj hle => ?_⟩
      · obtain ⟨hi, hle, hm0, hlow⟩ := (ih (i + 1)).1 m hm
        refine ⟨by omega, by omega, hm0, fun j hj hlt => ?_⟩
        rcases Nat.eq_or_lt_of_le hj with rfl | hj'
        · exact h0
        · exact hlow j hj' hlt
      · rcases Nat.eq_or_lt_of_le hj with rfl | hj'
        · exact h0
        · exact (ih (i + 1)).2 hnone j hj' (by omega)

/-- The vacant entry found is the lowest free descriptor. -/
lemma FdsOk.vacant_some {fds : FdArr} (h : FdsOk fds) {m : ℕ}
    (hm : vacantFrom fds 7 0 = some m) : (fdTable fds).LowestFree m := by
  obtain ⟨-, hle, h0, hlow⟩ := (vacantFrom_spec fds 7 0).1 m hm
  have h2 : 2 ≤ m := by
    by_contra hlt
    interval_cases m
    · rw [h.stdin] at h0
      exact absurd h0 (by decide)
    · rw [h.stdout] at h0
      exact absurd h0 (by decide)
  refine ⟨h2, by omega, (h.fdTable_eq_none (by omega)).2 h0, fun j _ hj => ?_⟩
  rw [ne_eq, h.fdTable_eq_none (by omega)]
  exact hlow j (Nat.zero_le _) hj

lemma FdsOk.vacant_none {fds : FdArr} (h : FdsOk fds) (hm : vacantFrom fds 7 0 = none) :
    (fdTable fds).Full := by
  intro j _ hj
  rw [ne_eq, h.fdTable_eq_none hj]
  exact (vacantFrom_spec fds 7 0).2 hm j (Nat.zero_le _) (by omega)

/-- The entries have the types the kernel knows: RTC, directory and regular file. -/
def KnownTypes (img : Image) : Prop :=
  ∀ i < img.numDirEntries.toNat, (img.dirEntries i).fileType ≤ 2

lemma driverOf_known {fileType : UInt32} (h : fileType ≤ 2) :
    ∃ driver, driverOf fileType = some driver ∧ driver.IsFile := by
  have hle : fileType.toNat ≤ 2 := UInt32.le_iff_toNat_le.1 h
  have hcases : fileType = 0 ∨ fileType = 1 ∨ fileType = 2 := by
    rw [← UInt32.toNat_inj, ← UInt32.toNat_inj, ← UInt32.toNat_inj]
    simp only [UInt32.reduceToNat]
    omega
  rcases hcases with rfl | rfl | rfl
  · exact ⟨.rtc, rfl, Or.inl rfl⟩
  · exact ⟨.dir, rfl, Or.inr (Or.inl rfl)⟩
  · exact ⟨.file, rfl, Or.inr (Or.inr rfl)⟩

/-! ### What the calls do to the table -/

/-- In the state `k` the four calls do to the table of `this_pcb` what they should. -/
structure Implements (img : Image) (k : Kernel) : Prop where
  stdin : fdTable k.pcb.fdArr 0 = some ⟨.stdin, 0, 0⟩
  stdout : fdTable k.pcb.fdArr 1 = some ⟨.stdout, 0, 0⟩
  write_stdin : ∀ buf nbytes, syscallWrite k 0 buf nbytes = .done (-1, k)
  read_stdout : ∀ buf nbytes, syscallRead img k 1 buf nbytes = .done (-1, buf, k)
  open_absent : ∀ name, readDentryByName img name = none →
    syscallOpen img k name = .done (-1, k)
  open_full : ∀ name, (fdTable k.pcb.fdArr).Full → syscallOpen img k name = .done (-1, k)
  open_free : ∀ name d fd, readDentryByName img name = some d →
    (fdTable k.pcb.fdArr).LowestFree fd →
    ∃ driver k', driverOf d.fileType = some driver ∧
      syscallOpen img k name = .done (Int32.ofNat fd, k') ∧
      fdTable k'.pcb.fdArr
        = Function.update (fdTable k.pcb.fdArr) fd (some ⟨driver, d.inodeNum, 0⟩)
  open_fails : ∀ name, (∃ k', syscallOpen img k name = .done (-1, k')) →
    readDentryByName img name = none ∨ (fdTable k.pcb.fdArr).Full
  close_closed : ∀ fd, ¬(2 ≤ fd.toInt ∧ (fdTable k.pcb.fdArr).IsOpen fd) →
    syscallClose k fd = .done (-1, k)
  close_open : ∀ fd, 2 ≤ fd.toInt → (fdTable k.pcb.fdArr).IsOpen fd →
    ∃ k', syscallClose k fd = .done (0, k') ∧
      fdTable k'.pcb.fdArr = Function.update (fdTable k.pcb.fdArr) (fdIndex fd) none
  read_closed : ∀ fd buf nbytes, ¬(fdTable k.pcb.fdArr).IsOpen fd →
    syscallRead img k fd buf nbytes = .done (-1, buf, k)
  write_closed : ∀ fd buf nbytes, ¬(fdTable k.pcb.fdArr).IsOpen fd →
    syscallWrite k fd buf nbytes = .done (-1, k)
  read_frame : ∀ fd buf nbytes r buf' k', syscallRead img k fd buf nbytes = .done (r, buf', k') →
    ∃ filePos, fdTable k'.pcb.fdArr = Function.update (fdTable k.pcb.fdArr) (fdIndex fd)
      ((fdTable k.pcb.fdArr (fdIndex fd)).map fun f => { f with filePos := filePos })
  write_frame : ∀ fd buf nbytes r k', syscallWrite k fd buf nbytes = .done (r, k') →
    fdTable k'.pcb.fdArr = fdTable k.pcb.fdArr

namespace FdsOk

variable {img : Image} {k : Kernel}

/-! ### Calls on descriptors that are not open -/

lemma syscallRead_closed (h : FdsOk k.pcb.fdArr) {fd : Int32} (buf : Option Buf)
    (nbytes : Int32) (hfd : ¬(fdTable k.pcb.fdArr).IsOpen fd) :
    syscallRead img k fd buf nbytes = .done (-1, buf, k) := by
  rw [h.isOpen_iff, not_not] at hfd
  cases buf with
  | none => rfl
  | some buf => exact if_pos (by tauto)

lemma syscallWrite_closed (h : FdsOk k.pcb.fdArr) {fd : Int32} (buf : Option Buf)
    (nbytes : Int32) (hfd : ¬(fdTable k.pcb.fdArr).IsOpen fd) :
    syscallWrite k fd buf nbytes = .done (-1, k) := by
  rw [h.isOpen_iff, not_not] at hfd
  cases buf with
  | none => rfl
  | some buf => exact if_pos (by tauto)

lemma syscallClose_closed (h : FdsOk k.pcb.fdArr) {fd : Int32}
    (hfd : ¬(2 ≤ fd.toInt ∧ (fdTable k.pcb.fdArr).IsOpen fd)) :
    syscallClose k fd = .done (-1, k) := by
  have h2 : fd < 2 ↔ fd.toInt < 2 := Int32.lt_iff_toInt_lt
  have h0 : fd < 0 ↔ fd.toInt < 0 := Int32.lt_iff_toInt_lt
  have hle : ¬2 ≤ fd.toInt ↔ fd.toInt < 2 := not_le
  have hneg : fd.toInt < 0 → fd.toInt < 2 := fun hlt => by omega
  rw [h.isOpen_iff] at hfd
  exact if_pos (by tauto)

/-! ### Opening and closing -/

/-- `syscall_close` frees the entry and nothing else. -/
lemma syscallClose_open (h : FdsOk k.pcb.fdArr) {fd : Int32} (h2 : 2 ≤ fd.toInt)
    (hfd : (fdTable k.pcb.fdArr).IsOpen fd) :
    syscallClose k fd = .done (0, k.setFds (Function.update k.pcb.fdArr (fdIndex fd)
      (closedEntry (k.pcb.fdArr (fdIndex fd))))) := by
  have hlt2 : fd < 2 ↔ fd.toInt < 2 := Int32.lt_iff_toInt_lt
  have h8 : fd ≥ 8 ↔ 8 ≤ fd.toInt := Int32.le_iff_toInt_le
  rw [h.isOpen_iff, h8] at hfd
  push Not at hfd
  obtain ⟨driver, hd⟩ := h.fileOps_ne_none (fdIndex_lt hfd.2.1) hfd.2.2
  rw [syscallClose, if_neg]
  · dsimp only
    rw [hd]
  · rw [hlt2, h8]
    rintro (hlt | hge | hflags)
    · omega
    · omega
    · exact hfd.2.2 hflags

/-- `syscall_open` of a file of a known type in the vacant entry `fd`. -/
lemma openAt_known (k : Kernel) (fd : ℕ) {d : DirEntry} {driver : Driver}
    (hd : driverOf d.fileType = some driver) (hfile : driver.IsFile) :
    ∃ k', openAt k fd d = .ok k' ∧ k'.thisPcb = k.thisPcb ∧
      k'.pcb.fdArr = Function.update k.pcb.fdArr fd ⟨some driver, d.inodeNum, 0, 1⟩ := by
  have hentry : newEntry (k.pcb.fdArr fd) d = ⟨some driver, d.inodeNum, 0, 1⟩ := by
    rw [newEntry, hd]
    rfl
  rw [openAt, hd, hentry]
  rcases hfile with rfl | rfl | rfl
  · exact ⟨_, rfl, rfl, Kernel.setFds_fdArr _ _⟩
  · exact ⟨_, rfl, rfl, Kernel.setFds_fdArr _ _⟩
  · exact ⟨_, rfl, rfl, Kernel.setFds_fdArr _ _⟩

end FdsOk

/-- Moving the position of an entry moves it in the table. -/
lemma fdTable_move (fds : FdArr) (i : ℕ) (pos : UInt32) :
    fdTable (Function.update fds i { fds i with filePos := pos })
      = Function.update (fdTable fds) i ((fdTable fds i).map fun f => { f with filePos := pos }) := by
  funext j
  by_cases hj : j = i
  · subst hj
    rw [Function.update_self, fdTable, fdTable, Function.update_self]
    by_cases huse : j < maxFdArrSize ∧ (fds j).flags ≠ 0
    · rw [if_pos huse, if_pos huse, Option.map_map]
      rfl
    · rw [if_neg huse, if_neg huse]
      rfl
  · rw [fdTable_update_of_ne hj, Function.update_of_ne hj]

/-! ### The calls implement the table -/

lemma FdsOk.syscallOpen_free {img : Image} (htypes : KnownTypes img) {k : Kernel}
    (h : FdsOk k.pcb.fdArr) {name : Str} {d : DirEntry} {fd : ℕ}
    (hname : readDentryByName img name = some d)
    (hm : vacantFrom k.pcb.fdArr 7 0 = some fd) :
    ∃ driver k', driverOf d.fileType = some driver ∧
      syscallOpen img k name = .done (Int32.ofNat fd, k') ∧
      fdTable k'.pcb.fdArr
        = Function.update (fdTable k.pcb.fdArr) fd (some ⟨driver, d.inodeNum, 0⟩) := by
  obtain ⟨j, hj, rfl⟩ := (readDentryByName_spec hname).1
  obtain ⟨driver, hd, hfile⟩ := driverOf_known (htypes j hj)
  obtain ⟨k', hk', -, hfds⟩ := FdsOk.openAt_known k fd hd hfile
  refine ⟨driver, k', hd, ?_, ?_⟩
  · rw [syscallOpen, hname]
    dsimp only
    rw [hm]
    dsimp only
    rw [hk']
  · rw [hfds]
    funext i
    by_cases hi : i = fd
    · subst hi
      rw [fdTable_update_self (h.vacant_some hm).2.1 (by simp), Function.update_self]
      rfl
    · rw [fdTable_update_of_ne hi, Function.update_of_ne hi]

/-- In a state whose array is well formed, the calls do to the table what they should. -/
lemma FdsOk.implements {img : Image} (htypes : KnownTypes img) {k : Kernel}
    (h : FdsOk k.pcb.fdArr) : Implements img k where
  stdin := by rw [fdTable, h.stdin]; rfl
  stdout := by rw [fdTable, h.stdout]; rfl
  write_stdin buf nbytes := by
    cases buf with
    | none => rfl
    | some b =>
      rw [syscallWrite.eq_def]
      dsimp only
      split
      · rfl
      · rw [driverWrite, show (k.pcb.fdArr (fdIndex 0)).fileOps = some .stdin by
          rw [show fdIndex 0 = 0 from rfl, h.stdin]]
  read_stdout buf nbytes := by
    cases buf with
    | none => rfl
    | some b =>
      rw [syscallRead.eq_def]
      dsimp only
      split
      · rfl
      · rw [driverRead, show (k.pcb.fdArr (fdIndex 1)).fileOps = some .stdout by
          rw [show fdIndex 1 = 1 from rfl, h.stdout]]
        rfl
  open_absent name hname := by rw [syscallOpen, hname]
  open_full name hfull := by
    rw [syscallOpen]
    split
    · rfl
    · cases hm : vacantFrom k.pcb.fdArr 7 0 with
      | none => rfl
      | some m =>
        have hlow := h.vacant_some hm
        exact absurd hlow.2.2.1 (hfull m hlow.1 hlow.2.1)
  open_free name d fd hname hfree := by
    cases hm : vacantFrom k.pcb.fdArr 7 0 with
    | none => exact absurd hfree.2.2.1 (h.vacant_none hm fd hfree.1 hfree.2.1)
    | some m =>
      have hlow := h.vacant_some hm
      obtain rfl : m = fd := by
        rcases Nat.lt_trichotomy m fd with hlt | heq | hlt
        · exact absurd hlow.2.2.1 (hfree.2.2.2 m hlow.1 hlt)
        · exact heq
        · exact absurd hfree.2.2.1 (hlow.2.2.2 fd hfree.1 hlt)
      exact h.syscallOpen_free htypes hname hm
  open_fails name hfails := by
    obtain ⟨k', hk'⟩ := hfails
    cases hname : readDentryByName img name with
    | none => exact Or.inl rfl
    | some d =>
      cases hm : vacantFrom k.pcb.fdArr 7 0 with
      | none => exact Or.inr (h.vacant_none hm)
      | some m =>
        -- the call returned the descriptor `m`, which is not -1
        obtain ⟨-, k₁, -, hk₁, -⟩ := h.syscallOpen_free htypes hname hm
        have hm8 := (h.vacant_some hm).2.1
        rw [hk'] at hk₁
        injection hk₁ with hk₁
        have hret : -1 = Int32.ofNat m := (Prod.mk.inj hk₁).1
        interval_cases m <;> exact absurd hret (by decide)
  close_closed fd hfd := h.syscallClose_closed hfd
  close_open fd h2 hfd := by
    refine ⟨_, h.syscallClose_open h2 hfd, ?_⟩
    rw [Kernel.setFds_fdArr]
    funext i
    by_cases hi : i = fdIndex fd
    · subst hi
      rw [Function.update_self, fdTable, Function.update_self, if_neg (by simp [closedEntry])]
    · rw [fdTable_update_of_ne hi, Function.update_of_ne hi]
  read_closed fd buf nbytes hfd := h.syscallRead_closed buf nbytes hfd
  write_closed fd buf nbytes hfd := h.syscallWrite_closed buf nbytes hfd
  read_frame fd buf nbytes r buf' k' hread := by
    have heff := syscallRead_effect img k fd buf nbytes
    rw [hread] at heff
    have hch : FdsChange img k.pcb.fdArr (.read fd buf nbytes) k'.pcb.fdArr := heff.fdArr
    generalize k'.pcb.fdArr = fds' at hch ⊢
    cases hch with
    | same =>
      refine ⟨(k.pcb.fdArr (fdIndex fd)).filePos, ?_⟩
      rw [← fdTable_move, Function.update_eq_self]
    | moved h8 hflags hops pos => exact ⟨pos, by rw [fdTable_move]⟩
  write_frame fd buf nbytes r k' hwrite := by
    have heff := syscallWrite_effect img k fd buf nbytes
    rw [hwrite] at heff
    have hch : FdsChange img k.pcb.fdArr (.write fd buf nbytes) k'.pcb.fdArr := heff.fdArr
    generalize k'.pcb.fdArr = fds' at hch ⊢
    cases hch with
    | same => rfl

/-! ### Runs of a process -/

/-- What happens to the kernel while a process runs: one of its calls returns, or the other
processes and the interrupt handlers lead to the state `k'`. -/
inductive FdEvent
  | call (c : Call)
  | others (k' : Kernel)

/-- The state after an event. -/
def fdStep (img : Image) : FdEvent → Kernel → Option Kernel
  | .call c, k =>
    match k.call img c with
    | .done (_, k') => some k'
    | .waits => none
    | .fault _ => none
  | .others k', _ => some k'

/-- Nothing but its own calls changes the descriptor array of a process. -/
def FdEvent.Ok : FdEvent → Kernel → Prop
  | .call _, _ => True
  | .others k', k => k'.pcb.fdArr = k.pcb.fdArr

/-- A call keeps the invariant of the array. -/
lemma FdsOk.change {img : Image} (htypes : KnownTypes img) {fds fds' : FdArr} {c : Call}
    (h : FdsOk fds) (hc : FdsChange img fds c fds') : FdsOk fds' := by
  cases hc with
  | same => exact h
  | opened hm hname =>
    obtain ⟨j, hj, rfl⟩ := (readDentryByName_spec hname).1
    obtain ⟨driver, hd, hfile⟩ := driverOf_known (htypes _ hj)
    exact h.update (h.vacant_some hm).1 fun _ => ⟨driver, by rw [newEntry, hd]; rfl, hfile⟩
  | closed h2 h8 => exact h.update h2 fun hflags => absurd rfl hflags
  | @moved fd nbytes buf h8 hflags hops pos =>
    -- the driver is that of a file or a directory, so the entry is not 0 or 1
    have h2 : 2 ≤ fdIndex fd := by
      by_contra hlt
      have hlt' : fdIndex fd < 2 := Nat.lt_of_not_le hlt
      interval_cases hi : fdIndex fd
      · rw [h.stdin] at hops
        exact absurd hops (by decide)
      · rw [h.stdout] at hops
        exact absurd hops (by decide)
    exact h.update h2 fun hf => h.driver _ h2 h8 hf

/-- An event changes the array as a call does, or not at all. -/
lemma fdStep_change {img : Image} {e : FdEvent} {k k' : Kernel} (hok : e.Ok k)
    (hs : fdStep img e k = some k') : ∃ c, FdsChange img k.pcb.fdArr c k'.pcb.fdArr := by
  cases e with
  | call c =>
    have heff := call_effect img k c
    rw [fdStep] at hs
    cases hc : k.call img c with
    | done x =>
      rw [hc] at hs heff
      obtain rfl := Option.some.inj hs
      exact ⟨c, heff.fdArr⟩
    | waits =>
      rw [hc] at hs
      exact absurd hs (by simp)
    | fault k₁ =>
      rw [hc] at hs
      exact absurd hs (by simp)
  | others k₁ =>
    obtain rfl := Option.some.inj hs
    rw [show k₁.pcb.fdArr = k.pcb.fdArr from hok]
    exact ⟨.close 0, .same _⟩

/-- **The descriptor array is a table of open files.**  From `setup_fd` on, whatever calls the
process makes, its descriptors 0 and 1 stay what they are, and opening, closing, reading and
writing do to the table what they should and nothing else. -/
theorem descriptors_implement_table (img : Image) (htypes : KnownTypes img) (fds : FdArr)
    (k₀ k : Kernel) (hsetup : k₀.pcb.fdArr = setupFd fds)
    (h : Runs.Reach (fdStep img) FdEvent.Ok k₀ k) : Implements img k := by
  have hok : FdsOk k.pcb.fdArr := by
    refine h.invariant (P := fun k => FdsOk k.pcb.fdArr) (hsetup ▸ setupFd_ok fds) ?_
    intro e k₁ k₂ hk₁ he hs
    obtain ⟨c, hc⟩ := fdStep_change he hs
    exact hk₁.change htypes hc
  exact hok.implements htypes

/-- Opening the text file of the small image. -/
lemma sample_open : ∃ k, fdStep sampleImage (.call (.openFile fishName)) sampleKernel = some k ∧
    k.pcb.fdArr 2 = ⟨some .file, 1, 0, 1⟩ :=
  ⟨_, rfl, rfl⟩

/-- After the text file of the small image was opened. -/
theorem descriptors_implement_table_fish :
    ∃ k, fdStep sampleImage (.call (.openFile fishName)) sampleKernel = some k ∧
      Implements sampleImage k := by
  obtain ⟨k, hk, -⟩ := sample_open
  have htypes : KnownTypes sampleImage := by
    intro i hi
    have hi' : i < 4 := hi
    interval_cases i <;> decide
  exact ⟨k, hk, descriptors_implement_table sampleImage htypes (fun _ => ⟨none, 0, 0, 0⟩)
    sampleKernel k rfl (Runs.Reach.single (by trivial) hk)⟩

end WnajOS
