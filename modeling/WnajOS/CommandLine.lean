import WnajOS.FileSystem.Lookup
import WnajOS.Isolation

/-!
# The command line

`syscall_execute` splits its command at the first blank: the word before it names the program,
and the characters after it become the program's arguments, which `syscall_getargs` hands out.
The length of the command is first cut to 32, and that length then bounds both the search for
the blank and the length of the argument.  So words of up to 32 characters and arguments of up
to 33 characters go through, except that an argument after a word of exactly 32 is lost.
-/

namespace WnajOS

/-! ### The two parts of a command -/

/-- The characters before the first blank. -/
def word (command : Str) : Str := (cstr command).takeWhile (· ≠ 0x20)

/-- The characters after the first blank. -/
def argument (command : Str) : Str := ((cstr command).dropWhile (· ≠ 0x20)).tail

lemma cstr_eq (command : Str) :
    cstr command = word command ++ (cstr command).dropWhile (· ≠ 0x20) :=
  (List.takeWhile_append_dropWhile ..).symm

lemma word_length_le (command : Str) : (word command).length ≤ strlen command :=
  (List.takeWhile_prefix _).length_le

/-- Before the end of the word there is neither a blank nor a `NUL`. -/
lemma byteAt_word {command : Str} {i : ℕ} (h : i < (word command).length) :
    command.byteAt i ≠ 0 ∧ command.byteAt i ≠ 0x20 := by
  have hstr := lt_of_lt_of_le h (word_length_le command)
  refine ⟨byteAt_ne_zero_of_lt_strlen hstr, ?_⟩
  have hlen : i < (cstr command).length := hstr
  have hmem : (word command)[i] ∈ word command := List.getElem_mem h
  have hget : (cstr command).byteAt i = (word command)[i] := by
    rw [Str.byteAt, List.getD_eq_getElem _ _ hlen]
    exact ((List.takeWhile_prefix _).getElem h).symm
  rw [← byteAt_cstr hstr, hget]
  simpa using List.mem_takeWhile_imp hmem

/-- At the end of the word there is a blank, unless the command ends there. -/
lemma byteAt_word_length {command : Str} (h : (word command).length < strlen command) :
    command.byteAt (word command).length = 0x20 ∧
      cstr command = word command ++ 0x20 :: argument command := by
  cases hrest : (cstr command).dropWhile (· ≠ 0x20) with
  | nil =>
    have heq := cstr_eq command
    rw [hrest, List.append_nil] at heq
    have hlen : strlen command = (word command).length := congrArg List.length heq
    omega
  | cons x rest =>
    have hx : x = 0x20 := by
      have hhead := List.head?_dropWhile_not (· ≠ 0x20) (cstr command)
      rw [hrest] at hhead
      simpa using hhead
    have heq : cstr command = word command ++ 0x20 :: argument command := by
      rw [argument, hrest, List.tail_cons, ← hx, ← hrest]
      exact cstr_eq command
    refine ⟨?_, heq⟩
    rw [← byteAt_cstr h, heq, Str.byteAt, List.getD_append_right _ _ _ _ le_rfl, Nat.sub_self]
    rfl

/-- A command without a blank has no argument. -/
lemma argument_eq_nil {command : Str} (h : strlen command ≤ (word command).length) :
    argument command = [] := by
  have hlen : (cstr command).length
      = (word command).length + ((cstr command).dropWhile (· ≠ 0x20)).length := by
    conv_lhs => rw [cstr_eq command]
    rw [List.length_append]
  have hstr : strlen command = (cstr command).length := rfl
  have hnil : (cstr command).dropWhile (· ≠ 0x20) = [] :=
    List.eq_nil_of_length_eq_zero (by omega)
  rw [argument, hnil, List.tail_nil]

lemma strlen_eq {command : Str} (h : (word command).length < strlen command) :
    strlen command = (word command).length + 1 + (argument command).length := by
  have hlen : strlen command = (word command ++ 0x20 :: argument command).length :=
    congrArg List.length (byteAt_word_length h).2
  rw [hlen, List.length_append, List.length_cons]
  omega

/-- The argument follows the blank. -/
lemma cstr_rest {command : Str} (h : (word command).length < strlen command) :
    cstr (command.drop ((word command).length + 1)) = argument command := by
  rw [cstr_drop h, (byteAt_word_length h).2]
  simp [List.drop_append]

lemma argument_ne_zero {command : Str} {x : UInt8} (h : x ∈ argument command) : x ≠ 0 :=
  cstr_ne_zero (List.dropWhile_suffix _ |>.subset (List.mem_of_mem_tail h))

/-! ### The parser -/

/-- What the parser hands on of the argument. -/
def givenArgs (command : Str) : Str :=
  if (word command).length < 32 then (argument command).take 33 else []

/-- The first loop stops at the end of the word, if its bound lets it. -/
lemma nameEnd_eq {command : Str} {n i : ℕ} (hi : i ≤ (word command).length)
    (hn : i + n ≤ strlen command) :
    nameEnd command n i =
      (min (word command).length (i + n), decide ((word command).length < i + n)) := by
  induction n generalizing i with
  | zero =>
    rw [nameEnd, Nat.add_zero, Nat.min_eq_right hi, decide_eq_false (by omega)]
  | succ n ih =>
    rw [nameEnd]
    rcases Nat.eq_or_lt_of_le hi with rfl | hlt
    · rw [if_pos (byteAt_word_length (by omega)).1, Nat.min_eq_left (by omega),
        decide_eq_true (by omega)]
    · obtain ⟨h0, hblank⟩ := byteAt_word hlt
      rw [if_neg hblank, if_neg h0, ih hlt (by omega), Nat.succ_add_eq_add_succ]

/-- The second loop stops at the end of the command, if its bound lets it. -/
lemma argEnd_eq {command : Str} {i n j : ℕ} (hj : i + j ≤ strlen command) :
    argEnd command i n j = min (strlen command - i) (j + n) := by
  induction n generalizing j with
  | zero => rw [argEnd, Nat.add_zero, Nat.min_eq_right (by omega)]
  | succ n ih =>
    rw [argEnd]
    by_cases h0 : command.byteAt (i + j) = 0
    · have hend : i + j = strlen command := by
        by_contra hne
        exact byteAt_ne_zero_of_lt_strlen (by omega : i + j < strlen command) h0
      rw [if_pos h0]
      omega
    · have hne : i + j ≠ strlen command := fun he => h0 (he ▸ byteAt_strlen command)
      rw [if_neg h0, ih (by omega)]
      omega

/-- The `file_name` is the word, cut to 32 characters. -/
lemma take_word (command : Str) :
    command.take (min (word command).length (min (strlen command) 32)) = (word command).take 32 := by
  have hle := word_length_le command
  have hpre : word command <+: command :=
    (List.takeWhile_prefix _).trans (List.takeWhile_prefix _)
  rw [← Nat.min_assoc, Nat.min_eq_left hle, Nat.min_comm, ← List.take_take]
  congr 1
  exact (List.prefix_iff_eq_take.1 hpre).symm

/-- **What the parser makes of a command.** -/
theorem parseCommand_eq (command : Str) :
    parseCommand command = ⟨(word command).take 32, (givenArgs command).byteAt⟩ := by
  have hname := @nameEnd_eq command (min (strlen command) 32) 0 (Nat.zero_le _) (by omega)
  rw [Nat.zero_add] at hname
  rw [parseCommand]
  dsimp only
  rw [hname]
  dsimp only
  rw [take_word]
  by_cases hblank : (word command).length < min (strlen command) 32
  · -- the blank was found, so the argument starts right after the word
    rw [if_pos (decide_eq_true hblank), Nat.min_eq_left (by omega)]
    congr 1
    funext x
    have hstr : (word command).length < strlen command := by omega
    have hlen := strlen_eq hstr
    have hrest : strlen (command.drop ((word command).length + 1)) = (argument command).length :=
      congrArg List.length (cstr_rest hstr)
    rw [givenArgs, if_pos (by omega), argEnd_eq (by omega), memcpy, strncpy_apply, hrest]
    by_cases hx : x < (argument command).length ∧ x < 1 + min (strlen command) 32
    · rw [if_pos (by omega), if_pos (by omega), if_pos hx.1, ← byteAt_cstr (by omega),
        cstr_rest hstr, byteAt_take, if_pos (by omega)]
    · have hzero : Str.byteAt ((argument command).take 33) x = 0 := by
        rw [byteAt_take]
        split
        · exact Str.byteAt_of_ge (by omega)
        · rfl
      rw [hzero]
      split
      · split
        · omega
        · rfl
      · rfl
  · -- there is no argument, or the blank is beyond the bound
    rw [if_neg (by simpa using hblank)]
    congr 1
    funext x
    rw [givenArgs]
    split
    · rw [argument_eq_nil (by omega)]
      rfl
    · rfl

/-! ### `syscall_getargs` -/

/-- `syscall_getargs` delivers the argument `a`: a non-empty one with a `NUL` after it
throughout the buffer, and for an empty one the result is -1. -/
structure ArgsGiven (a : Str) (b : Pcb) : Prop where
  delivered : ∀ (buf : Buf) (nbytes : Int32), a ≠ [] → a.length < nbytes.toInt →
    nbytes.toInt ≤ maxArgLen →
      syscallGetargs b buf nbytes = some (0, memcpy buf a.byteAt nbytes.toInt.toNat)
  empty : ∀ (buf : Buf) (nbytes : Int32), a = [] → 0 < nbytes →
    syscallGetargs b buf nbytes = some (-1, buf)

/-- The arguments are empty when they start with a `NUL`. -/
lemma strlen_range (f : Buf) (n : ℕ) : strlen ((List.range (n + 1)).map f) = 0 ↔ f 0 = 0 := by
  rw [List.range_succ_eq_map, List.map_cons, strlen, List.takeWhile_cons]
  by_cases h0 : f 0 = 0
  · simp [h0]
  · simp [h0]

lemma byteAt_zero {s : Str} (hs : ∀ x ∈ s, x ≠ 0) : s.byteAt 0 = 0 ↔ s = [] := by
  cases s with
  | nil => exact ⟨fun _ => rfl, fun _ => rfl⟩
  | cons x s =>
    constructor
    · intro h0
      exact absurd h0 (hs x (List.mem_cons_self ..))
    · intro hnil
      exact absurd hnil (by simp)

/-- Two strings are the same when their bytes are, up to the end of the first and its `NUL`. -/
lemma eq_of_byteAt {s s' : Str} (hs : ∀ x ∈ s, x ≠ 0) (hs' : ∀ x ∈ s', x ≠ 0)
    (h : ∀ i ≤ s.length, s'.byteAt i = s.byteAt i) : s' = s := by
  have hbound : ∀ i, s'.byteAt i = 0 → s'.length ≤ i := by
    intro i h0
    by_contra hlt
    rw [Str.byteAt, List.getD_eq_getElem _ _ (by omega)] at h0
    exact hs' _ (List.getElem_mem _) h0
  have hbound' : ∀ i, s.byteAt i = 0 → s.length ≤ i := by
    intro i h0
    by_contra hlt
    rw [Str.byteAt, List.getD_eq_getElem _ _ (by omega)] at h0
    exact hs _ (List.getElem_mem _) h0
  have hle : s'.length ≤ s.length :=
    hbound _ ((h _ le_rfl).trans (Str.byteAt_of_ge le_rfl))
  have hge : s.length ≤ s'.length :=
    hbound' _ ((h _ hle).symm.trans (Str.byteAt_of_ge le_rfl))
  refine List.ext_getElem (by omega) fun i hi' hi => ?_
  have hbyte := h i (by omega)
  rwa [Str.byteAt, Str.byteAt, List.getD_eq_getElem _ _ hi', List.getD_eq_getElem _ _ hi] at hbyte

section Getargs

variable {b : Pcb} {given : Str}

lemma strlen_args (hb : b.args = given.byteAt) (hgiven : ∀ x ∈ given, x ≠ 0) :
    strlen ((List.range maxArgLen).map b.args) = 0 ↔ given = [] := by
  rw [maxArgLen, strlen_range, hb, byteAt_zero hgiven]

lemma getargs_of_empty (hb : b.args = given.byteAt) (hgiven : given = []) {nbytes : Int32}
    (hpos : 0 < nbytes) (buf : Buf) : syscallGetargs b buf nbytes = some (-1, buf) := by
  have hlen := (strlen_args hb (by simp [hgiven])).2 hgiven
  rw [syscallGetargs, if_pos (Or.inr ⟨hlen, hpos⟩)]

lemma getargs_of_ne (hb : b.args = given.byteAt) (hgiven : ∀ x ∈ given, x ≠ 0)
    (hne : given ≠ []) {nbytes : Int32} (h0 : 0 ≤ nbytes.toInt) (hmax : nbytes.toInt ≤ maxArgLen)
    (buf : Buf) :
    syscallGetargs b buf nbytes = some (0, memcpy buf given.byteAt nbytes.toInt.toNat) := by
  have hle : ¬nbytes > Int32.ofNat maxArgLen := by
    intro hlt
    have hlt' := Int32.lt_iff_toInt_lt.1 hlt
    have hval : (Int32.ofNat maxArgLen).toInt = maxArgLen := by decide
    omega
  have hneg : ¬nbytes < 0 := by
    intro hlt
    have hlt' := Int32.lt_iff_toInt_lt.1 hlt
    have hval : (0 : Int32).toInt = 0 := by decide
    omega
  have hsome : ¬(strlen ((List.range maxArgLen).map b.args) = 0 ∧ nbytes > 0) :=
    fun h => hne ((strlen_args hb hgiven).1 h.1)
  rw [syscallGetargs, if_neg (not_or.2 ⟨hle, hsome⟩), if_neg hneg, hb]
  dsimp only
  congr 2
  funext i
  simp only [memcpy, memset]
  split
  · rfl
  · rfl

/-- The program gets its argument exactly when its process control block holds it. -/
lemma argsGiven_iff {a : Str} (hb : b.args = given.byteAt) (hgiven : ∀ x ∈ given, x ≠ 0)
    (ha : ∀ x ∈ a, x ≠ 0) (hlen : a.length < maxArgLen) : ArgsGiven a b ↔ given = a := by
  constructor
  · intro h
    by_cases hnil : a = []
    · -- an empty argument is answered by -1, which a call that delivers bytes is not
      subst hnil
      by_contra hne
      have hret := h.empty (fun _ => 0) 1 rfl (by decide)
      rw [getargs_of_ne hb hgiven hne (by decide) (by decide)] at hret
      exact absurd hret (by simp)
    · -- the call with just enough room shows the bytes of the argument and its `NUL`
      have hsize : (Int32.ofNat (a.length + 1)).toInt = (a.length + 1 : ℕ) :=
        Int32.toInt_ofNat_of_lt (by simp only [maxArgLen] at hlen; omega)
      have hret := h.delivered (fun _ => 0) (Int32.ofNat (a.length + 1)) hnil
        (by rw [hsize]; omega) (by rw [hsize]; omega)
      by_cases hempty : given = []
      · rw [getargs_of_empty hb hempty (Int32.lt_iff_toInt_lt.2 (by rw [hsize]; simp)) _] at hret
        exact absurd hret (by simp)
      · rw [getargs_of_ne hb hgiven hempty (by rw [hsize]; omega) (by rw [hsize]; omega)] at hret
        have hbuf := (Prod.mk.inj (Option.some.inj hret)).2
        refine eq_of_byteAt ha hgiven fun i hi => ?_
        have hbyte := congrFun hbuf i
        simp only [memcpy, hsize, Int.toNat_natCast] at hbyte
        rwa [if_pos (by omega), if_pos (by omega)] at hbyte
  · rintro rfl
    exact ⟨fun buf nbytes hne hlt hmax => getargs_of_ne hb hgiven hne (by omega) hmax buf,
      fun buf nbytes hnil hpos => getargs_of_empty hb hnil hpos buf⟩

end Getargs

/-! ### The arguments of a running program -/

/-- The event gives the slot `i` to a new program. -/
def Takes (img : Image) (i : ℤ) (e : Event) (k : Kernel) : Prop :=
  (e.program? img).isSome ∧ ∃ j ∈ freeSlot k.pid, (j : ℤ) = i

/-- **What the arguments of a program depend on.**  Nothing changes them until its slot is
given to another program. -/
lemma step_args {img : Image} {e : Event} {m m' : Machine} {i : ℤ}
    (hs : m.step img e = some m') (hi : ¬Takes img i e m.kernel) :
    (m'.kernel.pcbOf i).args = (m.kernel.pcbOf i).args := by
  have heff := step_effect hs
  obtain ⟨k', hk', rfl⟩ := Option.map_eq_some_iff.1 hs
  obtain ⟨k, live⟩ := m
  dsimp only at hi hk' heff ⊢
  generalize liveAfter e k k' live = live' at heff
  cases heff with
  | same h _ _ =>
    obtain ⟨fds, hpcb⟩ := h.pcbOf i
    rw [hpcb]
  | called _ _ h _ _ _ =>
    obtain ⟨fds, hpcb⟩ := h.pcbOf i
    rw [hpcb]
  | tick _ h =>
    rw [h.pcbOf]
    split
    · rename_i hcur
      rw [hcur.1]
    · rfl
  | created he hd hslot _ h =>
    have hne : i ≠ _ := fun heq => hi ⟨by rw [he.program, hd]; rfl, _, hslot, heq.symm⟩
    rw [h.pcbOf, if_neg hne]
  | faulted _ _ _ _ h =>
    obtain ⟨c, rfl, -⟩ := h
    rfl
  | @failed caller command buf he _ hd =>
    obtain ⟨failed, fault, hstep, hlasts, -⟩ := @Starts.step img _ _ _ _ _ he
    rw [hstep, startStep, syscallExecute_fails hd] at hk'
    obtain rfl := Option.some.inj hk'
    exact (hlasts _).args
  | halted _ _ h =>
    subst h
    rcases syscallHalt_cases k with ⟨-, heq⟩ | ⟨-, hfin⟩
    · rw [heq]
      rfl
    · obtain ⟨fds, hpcb⟩ := hfin.pcbOf
      rw [hpcb]
      split
      · rename_i hcur
        rw [hcur]
      · rfl

/-! ### A directory with a given name -/

lemma length_shellName : shellName.length ≤ 32 := by decide

lemma shellName_ne_zero : ∀ x ∈ shellName, x ≠ 0 := by simp [shellName]

/-- An image with the shell and a program of the given name. -/
def namedImage (name : Str) (h : name.length ≤ 32) : Image :=
  { sampleImage with
    numDirEntries := 2
    dirEntries := fun i =>
      if i = 0 then sampleEntry shellName length_shellName 2 0 else sampleEntry name h 2 0 }

lemma sampleEntry_name {s : Str} {h : s.length ≤ 32} {fileType inodeNum : UInt32}
    (hs : ∀ x ∈ s, x ≠ 0) : (sampleEntry s h fileType inodeNum).name = s := by
  have hbytes : (sampleEntry s h fileType inodeNum).fileName.toList
      = s ++ List.replicate (32 - s.length) 0 := rfl
  rw [DirEntry.name, hbytes, List.takeWhile_append_of_pos fun x hx => by simpa using hs x hx]
  rw [List.takeWhile_replicate]
  simp

section Named

variable {name : Str} {h : name.length ≤ 32}

/-- Both programs are found, and are the file of the inode 0. -/
lemma named_lookup (hname : ∀ x ∈ name, x ≠ 0) {fname : Str}
    (hf : fname = shellName ∨ fname = name) :
    ∃ d, readDentryByName (namedImage name h) fname = some d ∧ d.inodeNum = 0 := by
  have hne : ∀ x ∈ fname, x ≠ 0 := by
    rcases hf with rfl | rfl
    · exact shellName_ne_zero
    · exact hname
  have hlen : strlen fname ≤ maxFilenameLen := by
    refine (strlen_le_length fname).trans ?_
    rcases hf with rfl | rfl
    · exact length_shellName
    · exact h
  have hcount : (namedImage name h).numDirEntries.toInt32.toInt.toNat = 2 := by
    change (2 : UInt32).toInt32.toInt.toNat = 2
    decide
  rw [readDentryByName, if_neg (not_lt.2 hlen), hcount, searchFrom]
  split
  · exact ⟨_, rfl, rfl⟩
  · rename_i hshell
    rw [searchFrom, if_pos]
    · exact ⟨_, rfl, rfl⟩
    · rw [strncmp_fileName hlen, cstr_eq_self fun h0 => hne 0 h0 rfl] at hshell ⊢
      rcases hf with rfl | rfl
      · exact absurd (sampleEntry_name shellName_ne_zero) hshell
      · exact sampleEntry_name hname

lemma named_valid {fname : Str} {d : DirEntry}
    (hd : readDentryByName (namedImage name h) fname = some d) (h0 : d.inodeNum = 0) :
    isValidExec (namedImage name h) fname noBuf = some d ∧ LoadFits (namedImage name h) d := by
  constructor
  · rw [isValidExec, hd]
    dsimp only
    rw [h0, if_pos]
    rfl
  · have hcount : (readData (namedImage name h) 0 0 (fun _ => 0)
        ((namedImage name h).inodes (0 : UInt32).toNat).length).bufCounter = 40 := rfl
    rw [LoadFits, h0, hcount]
    decide

lemma Machine.step_of {img : Image} {e : Event} {k k' : Kernel} (hs : WnajOS.step img e k = some k')
    (live : Ledger) : Machine.step img e ⟨k, live⟩ = some ⟨k', liveAfter e k k' live⟩ := by
  rw [Machine.step, hs, Option.map_some]

/-- The first shell boots, and the slot 1 is free. -/
lemma named_boot (hname : ∀ x ∈ name, x ≠ 0) : ∃ m,
    Runs.Reach (Machine.step (namedImage name h)) (fun _ _ => True) sampleMachine m ∧
      m.kernel.ctl.point = .user 0 ∧ freeSlot m.kernel.pid = some 1 := by
  obtain ⟨d, hd, h0⟩ := named_lookup (h := h) hname (Or.inl rfl)
  obtain ⟨hvalid, hfits⟩ := named_valid hd h0
  have hparse : (parseCommand shellName).fileName = shellName := by decide
  let k₁ := sampleMachine.kernel.pitHandler
  let k₂ := (k₁.allocate (0 : ℕ)).createProcess (0 : ℕ) .pit (parseCommand shellName).args
  let k₃ : Kernel := { k₂ with ctl := ⟨.user 0, k₂.kstack⟩ }
  have htick : step (namedImage name h) .tick sampleMachine.kernel = some k₁ := rfl
  have hboot : step (namedImage name h) (.bootExec noBuf) k₁ = some k₂ := by
    have hpoint : k₁.ctl.point = .boot := rfl
    have hslot : freeSlot k₁.pid = some 0 := rfl
    simp only [step, hpoint, startStep]
    rw [syscallExecute_starts (hparse ▸ hvalid) hslot hfits]
  have henter : step (namedImage name h) .enter k₂ = some k₃ := rfl
  have hreach : Runs.Reach (Machine.step (namedImage name h)) (fun _ _ => True) sampleMachine
      ⟨k₃, _⟩ :=
    ((Runs.Reach.single trivial (Machine.step_of htick fun _ => [])).tail trivial
      (Machine.step_of hboot _)).tail trivial (Machine.step_of henter _)
  exact ⟨_, hreach, rfl, rfl⟩

end Named

/-! ### The round trip -/

/-- What a command promises when the process `p` executes it: a word that is too long is refused,
no other entry than that named by the word is started, and the program started gets the
argument for as long as its slot is its own. -/
structure RoundTrip (img : Image) (m : Machine) (p : ℤ) (command : Str) (buf : Buf) : Prop where
  refused : 32 < (word command).length →
    syscallExecute img m.kernel (.linkage p) command buf = .fails
  entry : ∀ d, (Event.execute command buf).program? img = some d →
    img.HasEntry d ∧ d.name = word command
  args : ∀ (i : ℤ) (m₁ m₂ : Machine), m.step img (.execute command buf) = some m₁ →
    m₁.kernel.ctl.point = .entering i →
    Runs.Reach (Machine.step img) (fun e m => ¬Takes img i e m.kernel) m₁ m₂ →
    m₂.kernel.ctl.point = .user i → m₂.kernel.thisPcb = pcbAddr i →
    ArgsGiven (argument command) m₂.kernel.pcb

/-- The promise is kept with every image, by every process in every state that is reached. -/
def RoundTrips (command : Str) : Prop :=
  ∀ (img : Image) (l : Layout) (pg : Paging) (vram : ℕ → ℕ → UInt8) (mem : ℤ → Pcb) (m : Machine),
    Runs.Reach (Machine.step img) (fun _ _ => True) (bootMachine l pg vram mem) m →
    ∀ (p : ℤ) (buf : Buf), m.kernel.ctl.point = .user p → RoundTrip img m p command buf

/-- The word fits, and the parser hands on the whole argument. -/
def GoesThrough (command : Str) : Prop :=
  (word command).length ≤ 32 ∧ (argument command = [] ∨
    (word command).length < 32 ∧ (argument command).length ≤ 33)

instance (command : Str) : Decidable (GoesThrough command) :=
  inferInstanceAs (Decidable (_ ∧ (_ ∨ _ ∧ _)))

lemma givenArgs_ne_zero {command : Str} {x : UInt8} (h : x ∈ givenArgs command) : x ≠ 0 := by
  rw [givenArgs] at h
  split at h
  · exact argument_ne_zero (List.mem_of_mem_take h)
  · exact absurd h (by simp)

lemma givenArgs_eq_iff (command : Str) : givenArgs command = argument command ↔
    argument command = [] ∨ (word command).length < 32 ∧ (argument command).length ≤ 33 := by
  rw [givenArgs]
  by_cases hw : (word command).length < 32
  · rw [if_pos hw, List.take_eq_self_iff]
    constructor
    · exact fun h => Or.inr ⟨hw, h⟩
    · rintro (hnil | ⟨-, h⟩)
      · simp [hnil]
      · exact h
  · rw [if_neg hw]
    constructor
    · exact fun h => Or.inl h.symm
    · rintro (hnil | ⟨hlt, -⟩)
      · exact hnil.symm
      · exact absurd hlt hw

lemma isValidExec_lookup {img : Image} {fname : Str} {buf : Buf} {d : DirEntry}
    (h : isValidExec img fname buf = some d) : readDentryByName img fname = some d := by
  rw [isValidExec] at h
  cases hd : readDentryByName img fname with
  | none =>
    rw [hd] at h
    exact absurd h (by simp)
  | some d' =>
    rw [hd] at h
    dsimp only at h
    split at h
    · exact h
    · exact absurd h (by simp)

/-- An executable that is started is the entry of its name. -/
lemma program_entry {img : Image} {command : Str} {buf : Buf} {d : DirEntry}
    (h : (Event.execute command buf).program? img = some d) :
    img.HasEntry d ∧ d.name = (word command).take 32 := by
  have hvalid : isValidExec img (parseCommand command).fileName buf = some d := h
  rw [parseCommand_eq] at hvalid
  obtain ⟨hentry, hname⟩ := readDentryByName_spec (isValidExec_lookup hvalid)
  refine ⟨hentry, hname.trans (cstr_eq_self fun h0 => ?_)⟩
  exact cstr_ne_zero ((List.takeWhile_prefix _).subset (List.mem_of_mem_take h0)) rfl

/-- The program that a command starts finds in its process control block what the parser
handed on. -/
lemma started_args {img : Image} {m m' : Machine} {p i : ℤ} {command : Str} {buf : Buf}
    (hp : m.kernel.ctl.point = .user p) (hs : m.step img (.execute command buf) = some m')
    (hi : m'.kernel.ctl.point = .entering i) :
    (m'.kernel.pcbOf i).args = (givenArgs command).byteAt := by
  obtain ⟨k', hk', rfl⟩ := Option.map_eq_some_iff.1 hs
  obtain ⟨k, live⟩ := m
  dsimp only at hp hk' hi ⊢
  have hex := executed img k (.linkage p) command buf
  simp only [step, hp, startStep] at hk'
  generalize syscallExecute img k (.linkage p) command buf = r at hk' hex
  cases hex with
  | fails =>
    obtain rfl := Option.some.inj hk'
    rw [hp] at hi
    exact absurd hi (by simp)
  | faults =>
    obtain rfl := Option.some.inj hk'
    exact absurd hi (by simp)
  | @starts d j =>
    obtain rfl := Option.some.inj hk'
    have hc := created k j (.linkage p) (parseCommand command).args
    obtain rfl : (j : ℤ) = i := by
      rw [hc.ctl] at hi
      exact Point.entering.inj hi
    rw [hc.pcbOf, if_pos rfl, parseCommand_eq]
    rfl

lemma reach_args {img : Image} {m m' : Machine} {i : ℤ}
    (h : Runs.Reach (Machine.step img) (fun e m => ¬Takes img i e m.kernel) m m') :
    (m'.kernel.pcbOf i).args = (m.kernel.pcbOf i).args :=
  h.invariant (P := fun m' => (m'.kernel.pcbOf i).args = (m.kernel.pcbOf i).args) rfl
    fun _ _ _ ih hi hs => (step_args hs hi).trans ih

/-- What the program gets as long as its slot is its own. -/
lemma argsGiven_of_reach {img : Image} {m m₁ m₂ : Machine} {p i : ℤ} {command : Str} {buf : Buf}
    (hlen : strlen command ≤ 127) (hp : m.kernel.ctl.point = .user p)
    (hs : m.step img (.execute command buf) = some m₁) (hi : m₁.kernel.ctl.point = .entering i)
    (hreach : Runs.Reach (Machine.step img) (fun e m => ¬Takes img i e m.kernel) m₁ m₂)
    (hthis : m₂.kernel.thisPcb = pcbAddr i) :
    ArgsGiven (argument command) m₂.kernel.pcb ↔ givenArgs command = argument command := by
  have hpcb : m₂.kernel.pcb = m₂.kernel.pcbOf i := by rw [Kernel.pcb, hthis, Kernel.pcbOf]
  have hargs : m₂.kernel.pcb.args = (givenArgs command).byteAt := by
    rw [hpcb, reach_args hreach, started_args hp hs hi]
  have harg : (argument command).length < maxArgLen := by
    have hle : (argument command).length ≤ strlen command := by
      rw [argument, List.length_tail]
      exact (Nat.sub_le ..).trans (List.dropWhile_suffix _).length_le
    rw [maxArgLen]
    omega
  exact argsGiven_iff hargs (fun _ => givenArgs_ne_zero) (fun _ => argument_ne_zero) harg

lemma roundTrips_of {command : Str} (hlen : strlen command ≤ 127) (h : GoesThrough command) :
    RoundTrips command := by
  intro img l pg vram mem m _ p buf hp
  obtain ⟨hword, hargument⟩ := h
  refine ⟨fun hlong => absurd hlong (by omega), fun d hd => ?_, ?_⟩
  · have hentry := program_entry hd
    rwa [List.take_of_length_le hword] at hentry
  · intro i m₁ m₂ hs hi hreach _ hthis
    exact (argsGiven_of_reach hlen hp hs hi hreach hthis).2 ((givenArgs_eq_iff command).2 hargument)

/-- With a program of the parsed name in the directory, the first shell starts the command. -/
lemma named_executes (command : Str) (h : ((word command).take 32).length ≤ 32) : ∃ k live,
    Runs.Reach (Machine.step (namedImage _ h)) (fun _ _ => True) sampleMachine ⟨k, live⟩ ∧
      k.ctl.point = .user 0 ∧
      syscallExecute (namedImage _ h) k (.linkage 0) command noBuf =
        .starts ((k.allocate (1 : ℕ)).createProcess (1 : ℕ) (.linkage 0)
          (parseCommand command).args) := by
  have hname : ∀ x ∈ (word command).take 32, x ≠ 0 := fun x hx =>
    cstr_ne_zero ((List.takeWhile_prefix _).subset (List.mem_of_mem_take hx))
  obtain ⟨⟨k, live⟩, hreach, hpoint, hslot⟩ := named_boot (h := h) hname
  dsimp only at hpoint hslot
  obtain ⟨d, hd, h0⟩ := named_lookup (h := h) hname (Or.inr rfl)
  obtain ⟨hvalid, hfits⟩ := named_valid hd h0
  refine ⟨k, live, hreach, hpoint, syscallExecute_starts ?_ hslot hfits⟩
  rw [parseCommand_eq]
  exact hvalid

/-- With a program of the parsed name in the directory, the first shell shows what the parser
loses. -/
lemma goesThrough_of {command : Str} (hlen : strlen command ≤ 127) (h : RoundTrips command) :
    GoesThrough command := by
  have hle : ((word command).take 32).length ≤ 32 := List.length_take_le ..
  obtain ⟨k, live, hreach, hpoint, hexec⟩ := named_executes command hle
  have htrip := h _ _ _ _ _ ⟨k, live⟩ hreach 0 noBuf hpoint
  constructor
  · by_contra hlong
    have hfails := htrip.refused (by omega)
    rw [hexec] at hfails
    exact absurd hfails (by simp)
  · rw [← givenArgs_eq_iff]
    let k₁ := (k.allocate (1 : ℕ)).createProcess (1 : ℕ) (.linkage 0) (parseCommand command).args
    let k₂ : Kernel := { k₁ with ctl := ⟨.user 1, k₁.kstack⟩ }
    have hs : step (namedImage _ hle) (.execute command noBuf) k = some k₁ := by
      simp only [step, hpoint, startStep]
      rw [hexec]
    have henter : step (namedImage _ hle) .enter k₁ = some k₂ := rfl
    have hkeeps : ¬Takes (namedImage _ hle) 1 .enter k₁ := by
      rintro ⟨hprogram, -⟩
      exact absurd hprogram (by simp [Event.program?, Event.command?])
    have hown : ∀ live, Runs.Reach (Machine.step (namedImage _ hle))
        (fun e m => ¬Takes (namedImage _ hle) 1 e m.kernel) ⟨k₁, live⟩
        ⟨k₂, liveAfter .enter k₁ k₂ live⟩ :=
      fun live => Runs.Reach.single hkeeps (Machine.step_of henter live)
    have hstart := Machine.step_of hs live
    have hgiven := htrip.args 1 _ _ hstart rfl (hown _) rfl rfl
    exact (argsGiven_of_reach hlen hpoint hstart rfl (hown _) rfl).1 hgiven

/-- **The command line round trip.**  Exactly the commands whose word has at most 32 characters,
and whose argument is empty or has at most 33 characters after a shorter word, go through. -/
theorem command_round_trips (command : Str) (hlen : strlen command ≤ 127) :
    RoundTrips command ↔ GoesThrough command :=
  ⟨goesThrough_of hlen, roundTrips_of hlen⟩

/-- In an orderly run the slot of a live program is its own, and so is `this_pcb` where the
program runs: a command that goes through gives the program its argument for life. -/
theorem argument_lasts {img : Image} {l : Layout} {pg : Paging} {vram : ℕ → ℕ → UInt8}
    {mem : ℤ → Pcb} {m m₁ m₂ : Machine} {p i : ℤ} {command : Str} {buf : Buf}
    (hlen : strlen command ≤ 127) (hthrough : GoesThrough command)
    (hm : Runs.Reach (Machine.step img) (fun e m => Orderly img e m.kernel)
      (bootMachine l pg vram mem) m)
    (hp : m.kernel.ctl.point = .user p) (ho : Orderly img (.execute command buf) m.kernel)
    (hs : m.step img (.execute command buf) = some m₁) (hi : m₁.kernel.ctl.point = .entering i)
    (hreach : Runs.Reach (Machine.step img)
      (fun e m => Orderly img e m.kernel ∧ ∃ t, i ∈ m.live t) m₁ m₂)
    (huser : m₂.kernel.ctl.point = .user i) : ArgsGiven (argument command) m₂.kernel.pcb := by
  have hinv : Inv m.kernel m.live := inv_of_reach (fun _ _ h => h) (inv_boot l pg vram mem) hm
  have hinv₁ := hinv.step ho hs
  have hboth : Runs.Reach (Machine.step img) (fun e m => ¬Takes img i e m.kernel) m₁ m₂ ∧
      Inv m₂.kernel m₂.live := by
    clear huser
    induction hreach with
    | refl => exact ⟨Runs.Reach.refl, hinv₁⟩
    | @tail m m' e _ hok hstep ih =>
      obtain ⟨hown, hinv⟩ := ih
      refine ⟨hown.tail ?_ hstep, hinv.step hok.1 hstep⟩
      rintro ⟨-, j, hj, rfl⟩
      obtain ⟨t, ht⟩ := hok.2
      have hheld := hinv.held t _ ht
      rw [(freeSlot_spec hj).2.1] at hheld
      exact absurd hheld (by decide)
  have hthis := (hboth.2.cpu i (by rw [huser]; rfl)).thisPcb
  exact (argsGiven_of_reach hlen hp hs hi hboth.1 hthis).2
    ((givenArgs_eq_iff command).2 hthrough.2)

/-- The command `fish` with an argument of 33 characters. -/
def longestCommand : Str := fishName ++ 0x20 :: List.replicate 33 0x61

/-- It goes through. -/
theorem command_round_trips_longest : RoundTrips longestCommand :=
  (command_round_trips longestCommand (by decide)).2 (by decide)

/-- With one more character the last one is lost. -/
theorem command_cut : ¬∀ command : Str, strlen command ≤ 127 → RoundTrips command := by
  intro h
  have hlen : strlen (longestCommand ++ [0x61]) ≤ 127 := by decide
  exact absurd (goesThrough_of hlen (h _ hlen)) (by decide)

end WnajOS
