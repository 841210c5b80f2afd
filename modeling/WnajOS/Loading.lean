import WnajOS.Executables
import WnajOS.ProcessSteps

/-!
# Starting a program, with its memory

`syscall_execute` once more, statement by statement: the loop that takes a pid changes the
table as it goes, the loader stores the file into the page just mapped, and the entry point is
read from the file.  The machine of processes uses the shorter reading, which forgets the
memory; both agree.
-/

namespace WnajOS

/-- The bytes of physical memory. -/
abbrev Ram := ℕ → UInt8

/-- The start of the program page, `USER_VIRT_MEM`. -/
def userPageStart : ℕ := 0x8000000

/-- The address that programs are loaded at. -/
def loadAddr : ℕ := 0x08048000

/-- The end of the program page, `USER_ESP`. -/
def userEsp : ℕ := 0x8400000

/-- The physical address of a virtual address in the program page. -/
def Kernel.userAddr (k : Kernel) (va : ℕ) : ℕ :=
  (k.paging.pageDirectory userPageIndex).addr / 1024 * 0x400000 + va % 0x400000

/-- It is where the processor walks to through the entry of a large page that is present. -/
lemma Kernel.walk_userAddr (l : Layout) (k : Kernel) {va : UInt32}
    (hva : userPageStart ≤ va.toNat ∧ va.toNat < userEsp)
    (hpresent : (k.paging.pageDirectory userPageIndex).present = true)
    (hlarge : (k.paging.pageDirectory userPageIndex).pageSize = true) :
    walk l k.paging false va = some (k.userAddr va.toNat) := by
  obtain ⟨hlo, hhi⟩ := hva
  rw [userPageStart] at hlo
  rw [userEsp] at hhi
  have hindex : va.toNat / 0x400000 = userPageIndex := by
    rw [userPageIndex]
    omega
  rw [walk, hindex]
  simp only [hpresent, hlarge, Bool.not_true, Bool.false_and, Bool.or_self, Bool.false_eq_true,
    if_false, if_true]
  rfl

/-- `*(int32_t*)buf`, as an address. -/
def entryPoint (buf : Buf) : UInt32 := (Rtc.word buf).toUInt32

/-- How `syscall_execute` ends: it returns, it enters a program with the memory `ram` at the
address `eip`, or it raises a page fault. -/
inductive Execution
  | returns (ret : Int32) (k : Kernel) (ram : Ram)
  | enters (k : Kernel) (ram : Ram) (eip : UInt32)
  | faults (k : Kernel)

/-- The loop that takes a pid, with `n` slots left, at slot `i`: the index at which it ends and
the state. -/
def takePid : (n i : ℕ) → Kernel → ℕ × Kernel
  | 0, i, k => (i, k)
  | n + 1, i, k =>
    if k.pid i = 0 then (i, { k with pid := Function.update k.pid i 1, currentPid := i })
    else takePid n (i + 1) k

/-- The stores of the loader: `n` bytes from the physical address `base` on. -/
def storeAt (ram : Ram) (base n : ℕ) (buf : Buf) : Ram :=
  fun a => if base ≤ a ∧ a < base + n then buf (a - base) else ram a

/-- `syscall_execute`.  `buf` and `entryPtBuf` are the local arrays of `is_valid_exec` and of
the function itself as they are before `read_data` stores into them. -/
def syscallExecuteFull (img : Image) (k : Kernel) (ram : Ram) (caller : Caller) (command : Str)
    (buf entryPtBuf : Buf) : Execution :=
  let cmd := parseCommand command
  match isValidExec img cmd.fileName buf with
  | none => .returns (-1) k ram
  | some fileData =>
    let taken := takePid maxPids 0 k
    let k := taken.2
    if taken.1 = maxPids then .returns (-1) k ram
    else
      let k := k.setUserPage k.currentPid
      let fileSize := (img.inodes fileData.inodeNum.toNat).length
      let base := k.userAddr loadAddr
      let rd := readData img fileData.inodeNum 0 (fun i => ram (base + i)) fileSize
      if rd.bufCounter > programSpace then .faults k
      else
        let ram := storeAt ram base rd.bufCounter rd.buf
        let k := k.createProcess k.currentPid caller cmd.args
        let entry := (readData img fileData.inodeNum 24 entryPtBuf 4).buf
        .enters k ram (entryPoint entry)

/-! ### The short reading -/

/-- What the machine of processes sees of it. -/
def Execution.outcome : Execution → Execute
  | returns _ _ _ => .fails
  | enters k _ _ => .starts k
  | faults k => .faults k

lemma takePid_eq (n i : ℕ) (k : Kernel) : takePid n i k =
    match slotFrom k.pid n i with
    | none => (i + n, k)
    | some j => (j, { k with pid := Function.update k.pid j 1, currentPid := j }) := by
  induction n generalizing i with
  | zero => rfl
  | succ n ih =>
    rw [takePid, slotFrom]
    by_cases h0 : k.pid i = 0
    · rw [if_pos h0, if_pos h0]
    · rw [if_neg h0, if_neg h0, ih, Nat.add_right_comm, Nat.add_assoc]

lemma takePid_of_free {k : Kernel} {i : ℕ} (h : freeSlot k.pid = some i) :
    takePid maxPids 0 k
      = (i, { k with pid := Function.update k.pid i 1, currentPid := i }) := by
  rw [takePid_eq, ← freeSlot, h]

lemma takePid_of_full {k : Kernel} (h : freeSlot k.pid = none) :
    takePid maxPids 0 k = (maxPids, k) := by
  rw [takePid_eq, ← freeSlot, h, Nat.zero_add]

/-- How many bytes are copied does not depend on what the buffer held. -/
lemma bufCounter_readLoop (img : Image) (ino : Inode) (length : UInt32) (n idx : ℕ) (cur : UInt32)
    (offset c : ℕ) (buf buf' : Buf) :
    (readLoop img ino length n idx cur offset c buf).bufCounter
      = (readLoop img ino length n idx cur offset c buf').bufCounter := by
  induction n generalizing idx cur offset c buf buf' with
  | zero => rfl
  | succ n ih =>
    rw [readLoop, readLoop]
    by_cases hlt : offset < ino.length.toNat
    · rw [if_pos hlt, if_pos hlt]
      by_cases hbd : c ≠ 0 ∧ offset % dataBlkSize = 0
      · rw [if_pos hbd, if_pos hbd]
        dsimp only
        by_cases hbad : ino.dataBlocks (idx + 1) > img.numDataBlks - 1
        · rw [if_pos hbad, if_pos hbad]
        · rw [if_neg hbad, if_neg hbad]
          exact ih ..
      · rw [if_neg hbd, if_neg hbd]
        exact ih ..
    · rw [if_neg hlt, if_neg hlt]

lemma bufCounter_readData (img : Image) (inode offset length : UInt32) (buf buf' : Buf) :
    (readData img inode offset buf length).bufCounter
      = (readData img inode offset buf' length).bufCounter := by
  rw [readData, readData]
  dsimp only
  split
  · rfl
  · split
    · rfl
    · split
      · rfl
      · exact bufCounter_readLoop ..

section Full

variable {img : Image} {k : Kernel} {ram : Ram} {caller : Caller} {command : Str}
variable {buf entryPtBuf : Buf}

/-- A call that fails. -/
lemma syscallExecuteFull_fails
    (h : isValidExec img (parseCommand command).fileName buf = none ∨ freeSlot k.pid = none) :
    syscallExecuteFull img k ram caller command buf entryPtBuf = .returns (-1) k ram := by
  rw [syscallExecuteFull]
  cases hd : isValidExec img (parseCommand command).fileName buf with
  | none => rfl
  | some d =>
    have hfull : freeSlot k.pid = none := by
      rcases h with h | h
      · exact absurd (hd.symm.trans h) (by simp)
      · exact h
    dsimp only
    rw [takePid_of_full hfull, if_pos rfl]

/-- A call that takes the slot `i`. -/
lemma syscallExecuteFull_takes {d : DirEntry} {i : ℕ}
    (hd : isValidExec img (parseCommand command).fileName buf = some d)
    (hi : freeSlot k.pid = some i) :
    syscallExecuteFull img k ram caller command buf entryPtBuf =
      let base := (k.allocate i).userAddr loadAddr
      let rd := readData img d.inodeNum 0 (fun j => ram (base + j))
        (img.inodes d.inodeNum.toNat).length
      if rd.bufCounter > programSpace then .faults (k.allocate i)
      else .enters ((k.allocate i).createProcess i caller (parseCommand command).args)
        (storeAt ram base rd.bufCounter rd.buf)
        (entryPoint (readData img d.inodeNum 24 entryPtBuf 4).buf) := by
  have hne : i ≠ maxPids := (freeSlot_spec hi).1.ne
  rw [syscallExecuteFull, hd]
  dsimp only
  rw [takePid_of_free hi, if_neg hne]
  rfl

lemma loadFits_iff (d : DirEntry) (view : Buf) : LoadFits img d ↔
    ¬(readData img d.inodeNum 0 view (img.inodes d.inodeNum.toNat).length).bufCounter
      > programSpace := by
  rw [LoadFits, bufCounter_readData img _ _ _ _ view, gt_iff_lt, not_lt]

end Full

/-- **Both readings of `syscall_execute` agree.** -/
theorem outcome_syscallExecuteFull (img : Image) (k : Kernel) (ram : Ram) (caller : Caller)
    (command : Str) (buf entryPtBuf : Buf) :
    (syscallExecuteFull img k ram caller command buf entryPtBuf).outcome
      = syscallExecute img k caller command buf := by
  have hex := executed img k caller command buf
  cases hx : syscallExecute img k caller command buf with
  | fails =>
    rw [hx] at hex
    cases hex with
    | fails h =>
      rw [syscallExecuteFull_fails h]
      rfl
  | starts k' =>
    rw [hx] at hex
    cases hex with
    | starts hd hi hfits =>
      rw [syscallExecuteFull_takes hd hi]
      dsimp only
      rw [if_neg ((loadFits_iff _ _).1 hfits)]
      rfl
  | faults k' =>
    rw [hx] at hex
    cases hex with
    | faults hd hi hfits =>
      rw [syscallExecuteFull_takes hd hi]
      dsimp only
      rw [if_pos (not_not.1 (mt (loadFits_iff _ _).2 hfits))]
      rfl

/-! ### Failing cleanly -/

lemma slotFrom_eq_none {pid : ℤ → ℤ} {n j : ℕ} :
    slotFrom pid n j = none ↔ ∀ i : ℕ, j ≤ i → i < j + n → pid i ≠ 0 := by
  induction n generalizing j with
  | zero => exact iff_of_true rfl fun i hj hi => absurd hj (by omega)
  | succ n ih =>
    rw [slotFrom]
    by_cases h0 : pid j = 0
    · rw [if_pos h0]
      exact iff_of_false (by simp) fun h => h j le_rfl (by omega) h0
    · rw [if_neg h0, ih]
      constructor
      · intro h i hj hi
        rcases Nat.eq_or_lt_of_le hj with rfl | hlt
        · exact h0
        · exact h i hlt (by omega)
      · exact fun h i hj hi => h i (by omega) (by omega)

/-- No slot is free exactly when all six are in use. -/
lemma freeSlot_eq_none {pid : ℤ → ℤ} : freeSlot pid = none ↔ ∀ i : ℕ, i < 6 → pid i ≠ 0 := by
  rw [freeSlot, slotFrom_eq_none, Nat.zero_add]
  exact ⟨fun h i hi => h i (Nat.zero_le i) hi, fun h i _ hi => h i hi⟩

/-- The program started from `k` in `k'` has the lowest free slot, and nothing else of the
process tables has changed. -/
structure StartsAlone (k k' : Kernel) (i : ℕ) : Prop where
  slot : i < 6
  free : k.pid i = 0
  lowest : ∀ j : ℕ, j < i → k.pid j ≠ 0
  taken : k'.pid i = 1
  pids : ∀ j : ℤ, j ≠ i → k'.pid j = k.pid j
  pcbs : ∀ addr, addr ≠ pcbAddr i → k'.pcbs addr = k.pcbs addr
  current : (k'.terms k.scheduledTerm).pid = i
  terms : ∀ t, t ≠ k.scheduledTerm → k'.terms t = k.terms t

/-- What a call of `syscall_execute` from `k` may do. -/
structure FailsCleanly (img : Image) (k : Kernel) (ram : Ram) (command : Str) (buf : Buf)
    (r : Execution) : Prop where
  /-- it returns -1 exactly when the file is rejected or all six slots are in use -/
  rejects : (∃ k' ram', r = .returns (-1) k' ram') ↔
    isValidExec img (parseCommand command).fileName buf = none ∨ ∀ i : ℕ, i < 6 → k.pid i ≠ 0
  /-- whenever it returns, it returns -1 and everything is as before -/
  unchanged : ∀ ret k' ram', r = .returns ret k' ram' → ret = -1 ∧ k' = k ∧ ram' = ram
  /-- when it starts a program, it touches nothing but the new process and its terminal -/
  starts : ∀ k' ram' eip, r = .enters k' ram' eip → ∃ i, StartsAlone k k' i
  /-- it faults exactly when a slot is free and the file runs over the end of the program page; the
  slot is taken and its page mapped by then -/
  faults : ∀ k', r = .faults k' ↔ ∃ (d : DirEntry) (i : ℕ),
    isValidExec img (parseCommand command).fileName buf = some d ∧ freeSlot k.pid = some i ∧
      ¬LoadFits img d ∧ k' = k.allocate i

/-- Of the process control blocks only that of the new process is written. -/
lemma createProcess_pcbs (k : Kernel) (i addr : ℤ) (caller : Caller) (args : Buf)
    (h : addr ≠ pcbAddr i) : ((k.allocate i).createProcess i caller args).pcbs addr
      = k.pcbs addr := by
  rw [Kernel.createProcess]
  exact Function.update_of_ne h _ _

lemma createProcess_term (k : Kernel) (i : ℤ) (caller : Caller) (args : Buf) (t : ℕ) :
    ((k.allocate i).createProcess i caller args).terms t
      = if t = k.scheduledTerm then { k.terms t with pid := i } else k.terms t := by
  rw [Kernel.createProcess]
  by_cases ht : t = k.scheduledTerm
  · subst ht
    rw [if_pos rfl]
    exact Function.update_self ..
  · rw [if_neg ht]
    exact Function.update_of_ne ht _ _

lemma startsAlone {k : Kernel} {i : ℕ} (hi : freeSlot k.pid = some i) (caller : Caller)
    (args : Buf) : StartsAlone k ((k.allocate i).createProcess i caller args) i := by
  obtain ⟨hlt, hfree, hlow⟩ := freeSlot_spec hi
  have hcreated := created k i caller args
  refine ⟨hlt, hfree, hlow, ?_, fun j hj => ?_, fun addr => createProcess_pcbs k i addr _ _, ?_, ?_⟩
  · rw [hcreated.pid, Function.update_self]
  · rw [hcreated.pid, Function.update_of_ne hj]
  · rw [createProcess_term, if_pos rfl]
  · intro t ht
    rw [createProcess_term, if_neg ht]

/-- **Execute fails cleanly.** -/
theorem execute_fails_cleanly (img : Image) (k : Kernel) (ram : Ram) (caller : Caller)
    (command : Str) (buf entryPtBuf : Buf) :
    FailsCleanly img k ram command buf
      (syscallExecuteFull img k ram caller command buf entryPtBuf) := by
  cases hi : freeSlot k.pid with
  | none =>
    rw [syscallExecuteFull_fails (Or.inr hi)]
    refine ⟨iff_of_true ⟨k, ram, rfl⟩ (Or.inr (freeSlot_eq_none.1 hi)), ?_, ?_, fun k' => ?_⟩
    · rintro ret k' ram' ⟨⟩
      exact ⟨rfl, rfl, rfl⟩
    · rintro k' ram' eip ⟨⟩
    · refine iff_of_false (by simp) ?_
      rintro ⟨d, i, -, hfree, -⟩
      exact absurd (hi.symm.trans hfree) (by simp)
  | some i =>
    have hnotfull : ¬∀ i : ℕ, i < 6 → k.pid i ≠ 0 := by
      rw [← freeSlot_eq_none, hi]
      simp
    cases hd : isValidExec img (parseCommand command).fileName buf with
    | none =>
      rw [syscallExecuteFull_fails (Or.inl hd)]
      refine ⟨iff_of_true ⟨k, ram, rfl⟩ (Or.inl hd), ?_, ?_, fun k' => ?_⟩
      · rintro ret k' ram' ⟨⟩
        exact ⟨rfl, rfl, rfl⟩
      · rintro k' ram' eip ⟨⟩
      · refine iff_of_false (by simp) ?_
        rintro ⟨d, i, hvalid, -⟩
        exact absurd (hd.symm.trans hvalid) (by simp)
    | some d =>
      -- the slot is taken: the call enters the program or faults, and does not return
      have hfits : LoadFits img d ↔ _ :=
        loadFits_iff d fun j => ram ((k.allocate i).userAddr loadAddr + j)
      have hsame (e : DirEntry) (i' : ℕ) (hvalid : isValidExec img (parseCommand command).fileName
          buf = some e) (hfree : freeSlot k.pid = some i') : e = d ∧ i' = i :=
        ⟨Option.some.inj (hvalid.symm.trans hd), Option.some.inj (hfree.symm.trans hi)⟩
      rw [syscallExecuteFull_takes hd hi]
      dsimp only
      split
      · rename_i hover
        refine ⟨iff_of_false ?_ ?_, ?_, ?_, fun k' => ⟨?_, ?_⟩⟩
        · rintro ⟨k', ram', ⟨⟩⟩
        · simpa [hd] using hnotfull
        · rintro ret k' ram' ⟨⟩
        · rintro k' ram' eip ⟨⟩
        · rintro ⟨⟩
          exact ⟨d, i, hd, hi, fun h => hfits.1 h hover, rfl⟩
        · rintro ⟨e, i', hvalid, hfree, -, rfl⟩
          obtain ⟨-, rfl⟩ := hsame e i' hvalid hfree
          rfl
      · rename_i hover
        refine ⟨iff_of_false ?_ ?_, ?_, ?_, fun k' => iff_of_false (by simp) ?_⟩
        · rintro ⟨k', ram', ⟨⟩⟩
        · simpa [hd] using hnotfull
        · rintro ret k' ram' ⟨⟩
        · rintro k' ram' eip ⟨⟩
          exact ⟨i, startsAlone hi _ _⟩
        · rintro ⟨e, i', hvalid, hfree, hlong, -⟩
          obtain ⟨rfl, -⟩ := hsame e i' hvalid hfree
          exact hlong (hfits.2 hover)

/-! ### The program in memory -/

/-- The bytes of an entry point are those of the array, in order. -/
lemma leBytes_entryPoint (buf : Buf) :
    leBytes (entryPoint buf) = [buf 0, buf 1, buf 2, buf 3] := by
  have hbits (x y : UInt8) (h : ∀ i < 8, x.toBitVec.getLsbD i = y.toBitVec.getLsbD i) : x = y :=
    UInt8.toBitVec_inj.1 (BitVec.eq_of_getLsbD_eq h)
  rw [entryPoint, Rtc.word, UInt32.toUInt32_toInt32, leBytes]
  simp only [List.cons.injEq, and_true]
  refine ⟨hbits _ _ fun i hi => ?_, hbits _ _ fun i hi => ?_, hbits _ _ fun i hi => ?_,
    hbits _ _ fun i hi => ?_⟩ <;> interval_cases i <;> simp

/-- The file lies at the load address of the process `i`, in its own page, and the rest of
memory is as before. -/
structure Placed (img : Image) (ino : Inode) (i : ℕ) (k' : Kernel) (ram ram' : Ram) : Prop where
  inside : loadAddr + ino.length.toNat ≤ userEsp
  frame : ∀ va, userPageStart ≤ va → va < userEsp →
    k'.userAddr va = 0x800000 + i * 0x400000 + (va - userPageStart)
  bytes : ∀ j < ino.length.toNat, ram' (k'.userAddr (loadAddr + j)) = fileByte img ino j
  rest : ∀ a, (∀ j < ino.length.toNat, a ≠ k'.userAddr (loadAddr + j)) → ram' a = ram a

/-- In every state with a free slot the file is loaded and entered at the address that its
header gives, if it fits into the page and has a header, and is refused otherwise. -/
def LoadsProgram (img : Image) (command : Str) (buf : Buf) (d : DirEntry) : Prop :=
  ∀ (k : Kernel) (ram : Ram) (caller : Caller) (entryPtBuf : Buf) (i : ℕ),
    freeSlot k.pid = some i →
    if 28 ≤ (img.inodes d.inodeNum.toNat).length.toNat ∧
        (img.inodes d.inodeNum.toNat).length.toNat ≤ programSpace then
      ∃ k' ram' eip,
        syscallExecuteFull img k ram caller command buf entryPtBuf = .enters k' ram' eip ∧
        Placed img (img.inodes d.inodeNum.toNat) i k' ram ram' ∧
        leBytes eip = (List.range 4).map
          fun j => fileByte img (img.inodes d.inodeNum.toNat) (24 + j)
    else syscallExecuteFull img k ram caller command buf entryPtBuf = .returns (-1) k ram

section Loading

variable {img : Image} {command : Str} {buf : Buf} {d : DirEntry}

/-- Inside a well-formed file `read_data` delivers everything it is asked for. -/
lemma readData_fileOk {inode : UInt32} (offset length : UInt32) (buf : Buf)
    (hino : ¬inode > img.numInodes - 1) (hfile : FileOk img (img.inodes inode.toNat))
    (hlen : 0 < length.toNat)
    (hin : offset.toNat + length.toNat ≤ (img.inodes inode.toNat).length.toNat) :
    (readData img inode offset buf length).bufCounter = length.toNat ∧
      Copied img (img.inodes inode.toNat) offset.toNat length.toNat buf
        (readData img inode offset buf length).buf := by
  have hoff : offset.toNat < (img.inodes inode.toNat).length.toNat := by omega
  obtain ⟨m, hm⟩ := readData_of_begins length buf (UInt32.le_iff_toNat_le.2 hoff.le)
    ⟨hino, hfile.passes hoff⟩
  have hmn : m = length.toNat := by
    rcases hm.result with ⟨hmn, -⟩ | ⟨hmn, hend, -⟩ | ⟨-, hlt, hbad, -⟩
    · exact hmn
    · omega
    · exact absurd (hfile.passes hlt) hbad
  rw [← hmn]
  exact ⟨by rw [hm.counter, Nat.zero_add], hm.copied⟩

/-- The program page of the new process is its own frame. -/
lemma userAddr_createProcess (k : Kernel) {i : ℕ} (hi : i < 6) (caller : Caller) (args : Buf)
    (va : ℕ) : ((k.allocate i).createProcess i caller args).userAddr va
      = 0x800000 + i * 0x400000 + va % 0x400000 := by
  have haddr : (((k.allocate i).createProcess i caller args).paging.pageDirectory
      userPageIndex).addr = userFrame i := by
    rw [(created k i caller args).paging]
    exact congrArg Pde.addr (setPdeAddr_self userPageIndex (userFrame i) _)
  rw [Kernel.userAddr, haddr, userFrame_eq (by omega) (by omega)]
  omega

/-- The stores of the loader put a buffer that lies in the page at its addresses. -/
lemma storeAt_apply (ram : Ram) (base n : ℕ) (buf : Buf) {j : ℕ} (hj : j < n) :
    storeAt ram base n buf (base + j) = buf j := by
  rw [storeAt, if_pos (by omega), Nat.add_sub_cancel_left]

lemma storeAt_of_ne (ram : Ram) (base n : ℕ) (buf : Buf) {a : ℕ} (h : ∀ j < n, a ≠ base + j) :
    storeAt ram base n buf a = ram a := by
  rw [storeAt, if_neg]
  rintro ⟨hle, hlt⟩
  exact h (a - base) (by omega) (by omega)

/-- An accepted file is never refused while a slot is free. -/
lemma not_loadsProgram (hd : isValidExec img (parseCommand command).fileName buf = some d)
    (hno : ¬(28 ≤ (img.inodes d.inodeNum.toNat).length.toNat ∧
      (img.inodes d.inodeNum.toNat).length.toNat ≤ programSpace)) :
    ¬LoadsProgram img command buf d := by
  intro h
  have hi : freeSlot sampleBoot.pid = some 0 := rfl
  have hret := h sampleBoot (fun _ => 0) .pit noBuf 0 hi
  rw [if_neg hno, syscallExecuteFull_takes hd hi] at hret
  dsimp only at hret
  split at hret
  · exact absurd hret (by simp)
  · exact absurd hret (by simp)

/-- For an inode number that `read_data` rejects, nothing is loaded. -/
lemma not_loadsProgram_of_inode
    (hd : isValidExec img (parseCommand command).fileName buf = some d)
    (hino : d.inodeNum > img.numInodes - 1) : ¬LoadsProgram img command buf d := by
  intro h
  by_cases hfits : 28 ≤ (img.inodes d.inodeNum.toNat).length.toNat ∧
      (img.inodes d.inodeNum.toNat).length.toNat ≤ programSpace
  · -- in a memory of other bytes than the first of the file
    obtain ⟨b, hb⟩ : ∃ b, b ≠ fileByte img (img.inodes d.inodeNum.toNat) 0 :=
      ⟨fileByte img (img.inodes d.inodeNum.toNat) 0 + 1, by simp⟩
    have hi : freeSlot sampleBoot.pid = some 0 := rfl
    have hloads := h sampleBoot (fun _ => b) .pit noBuf 0 hi
    rw [if_pos hfits, syscallExecuteFull_takes hd hi] at hloads
    have hrd (buf : Buf) (length : UInt32) :
        readData img d.inodeNum 0 buf length = ⟨-1, buf, 0⟩ := by rw [readData, if_pos hino]
    dsimp only at hloads
    rw [hrd, if_neg (Nat.not_lt_zero _)] at hloads
    obtain ⟨k', ram', eip, heq, hplaced, -⟩ := hloads
    obtain ⟨rfl, rfl, rfl⟩ := Execution.enters.inj heq
    have hbyte := hplaced.bytes 0 (by omega)
    rw [storeAt_of_ne _ _ _ _ (fun j hj => absurd hj (Nat.not_lt_zero j))] at hbyte
    exact hb hbyte
  · exact not_loadsProgram hd hfits h

lemma loadsProgram_of_fits (hd : isValidExec img (parseCommand command).fileName buf = some d)
    (hino : ¬d.inodeNum > img.numInodes - 1) (hfile : FileOk img (img.inodes d.inodeNum.toNat))
    (h28 : 28 ≤ (img.inodes d.inodeNum.toNat).length.toNat)
    (hfits : (img.inodes d.inodeNum.toNat).length.toNat ≤ programSpace) :
    LoadsProgram img command buf d := by
  intro k ram caller entryPtBuf i hi
  obtain ⟨hlt, -, -⟩ := freeSlot_spec hi
  rw [if_pos ⟨h28, hfits⟩, syscallExecuteFull_takes hd hi]
  dsimp only
  obtain ⟨hcounter, hcopied⟩ := readData_fileOk 0 (img.inodes d.inodeNum.toNat).length
    (fun j => ram ((k.allocate i).userAddr loadAddr + j)) hino hfile (by omega) (Nat.zero_add _).le
  obtain ⟨-, hentry⟩ := readData_fileOk 24 4 entryPtBuf hino hfile (by decide) h28
  rw [hcounter, if_neg (not_lt.2 hfits)]
  -- the addresses of the file follow each other in the frame of the process
  have haddr (va : ℕ) := userAddr_createProcess k hlt caller (parseCommand command).args va
  have hspace : programSpace = 0x3B8000 := rfl
  have hbase : (k.allocate i).userAddr loadAddr = 0x800000 + i * 0x400000 + 0x48000 :=
    haddr loadAddr
  have hnext (j : ℕ) (hj : j < (img.inodes d.inodeNum.toNat).length.toNat) :
      ((k.allocate i).createProcess i caller (parseCommand command).args).userAddr (loadAddr + j)
        = (k.allocate i).userAddr loadAddr + j := by
    rw [haddr, hbase, loadAddr]
    omega
  refine ⟨_, _, _, rfl, ⟨?_, ?_, ?_, ?_⟩, ?_⟩
  · -- the program space is what the page leaves above the load address
    rw [loadAddr, userEsp]
    omega
  · intro va h1 h2
    rw [haddr]
    simp only [userPageStart, userEsp] at h1 h2 ⊢
    omega
  · intro j hj
    rw [hnext j hj, storeAt_apply _ _ _ _ hj, hcopied.bytes j hj]
    exact congrArg _ (Nat.zero_add j)
  · intro a ha
    refine storeAt_of_ne _ _ _ _ fun j hj => ?_
    rw [← hnext j hj]
    exact ha j hj
  · -- the four bytes of the header overwrite the local array
    rw [leBytes_entryPoint]
    show _ = [_, _, _, _]
    rw [hentry.bytes 0 (by decide), hentry.bytes 1 (by decide), hentry.bytes 2 (by decide),
      hentry.bytes 3 (by decide)]
    rfl

end Loading

/-- **When a program is loaded as it should be.**  The longest file of the file system is longer
than what the page leaves above the load address. -/
theorem program_loading_iff (img : Image) (command : Str) (buf : Buf) (d : DirEntry)
    (hd : isValidExec img (parseCommand command).fileName buf = some d)
    (hlen : (img.inodes d.inodeNum.toNat).length.toNat ≤ 1023 * 4096)
    (hblocks : ∀ j < (img.inodes d.inodeNum.toNat).usedBlocks,
      BlockOk img (img.inodes d.inodeNum.toNat) j) :
    LoadsProgram img command buf d ↔
      ¬d.inodeNum > img.numInodes - 1 ∧ 28 ≤ (img.inodes d.inodeNum.toNat).length.toNat ∧
        (img.inodes d.inodeNum.toNat).length.toNat ≤ 3899392 := by
  by_cases hino : d.inodeNum > img.numInodes - 1
  · exact iff_of_false (not_loadsProgram_of_inode hd hino) fun h => h.1 hino
  · by_cases h : 28 ≤ (img.inodes d.inodeNum.toNat).length.toNat ∧
        (img.inodes d.inodeNum.toNat).length.toNat ≤ programSpace
    · exact iff_of_true (loadsProgram_of_fits hd hino ⟨hlen, hblocks⟩ h.1 h.2) ⟨hino, h⟩
    · exact iff_of_false (not_loadsProgram hd h) fun hall => h hall.2

/-- The shell of the small image. -/
theorem program_loading_iff_shell :
    LoadsProgram sampleImage shellName noBuf (sampleImage.dirEntries 1) ↔
      ¬(0 : UInt32) > sampleImage.numInodes - 1 ∧ 28 ≤ (sampleImage.inodes 0).length.toNat ∧
        (sampleImage.inodes 0).length.toNat ≤ 3899392 :=
  program_loading_iff sampleImage shellName noBuf (sampleImage.dirEntries 1) rfl (by decide)
    (by decide)

/-- The small image with a shell of four million bytes. -/
def longImage : Image := { sampleImage with inodes := fun _ => ⟨4000000, fun _ => 0⟩ }

/-- The long shell is a file of the file system, and is accepted, but neither loaded nor
refused. -/
theorem long_program_faults :
    (longImage.inodes 0).length.toNat ≤ 1023 * 4096 ∧
      (∀ j < (longImage.inodes 0).usedBlocks, BlockOk longImage (longImage.inodes 0) j) ∧
      isValidExec longImage (parseCommand shellName).fileName noBuf
        = some (longImage.dirEntries 1) ∧
      ¬LoadsProgram longImage shellName noBuf (longImage.dirEntries 1) :=
  ⟨by decide, fun _ _ => show (0 : UInt32) < 3 by decide, rfl, not_loadsProgram rfl (by decide)⟩

end WnajOS
