import WnajOS.CommandLine

/-!
# `syscall_getargs`

A process finds its argument in `args` of its process control block, where `syscall_execute` put
what its parser handed on, with a `NUL` behind it.  `syscall_getargs` should hand over both or
nothing.  Its guard compares `nbytes` with the size of `args`, not with the length of the
argument, and lets zero and negative numbers through.
-/

namespace WnajOS

/-- The string at `args`. -/
def Pcb.argument (b : Pcb) : Str := cstr ((List.range maxArgLen).map b.args)

/-- The first `nbytes` bytes of a buffer hold a string and the `NUL` behind it. -/
def HoldsString (s : Str) (buf : Buf) (nbytes : Int32) : Prop :=
  s.length < nbytes.toInt ∧ ∀ i ≤ s.length, buf i = s.byteAt i

/-- `syscall_getargs` hands over the whole argument or leaves the buffer alone, and writes
nothing behind the first `nbytes` bytes. -/
def AllOrNothing (b : Pcb) (buf : Buf) (nbytes : Int32) : Prop :=
  ∃ ret buf', syscallGetargs b buf nbytes = some (ret, buf') ∧
    (ret = 0 ∧ HoldsString b.argument buf' nbytes ∨ ret = -1 ∧ buf' = buf) ∧
    ∀ i : ℕ, nbytes.toInt ≤ i → buf' i = buf i

/-! ### The argument in the block -/

/-- What stands at an address, read up to the first `NUL`. -/
lemma cstr_range {s : Str} (hs : ∀ x ∈ s, x ≠ 0) {n : ℕ} (hn : s.length ≤ n) :
    cstr ((List.range n).map s.byteAt) = s := by
  induction s generalizing n with
  | nil =>
    cases n with
    | zero => rfl
    | succ n =>
      rw [List.range_succ_eq_map, List.map_cons, cstr, List.takeWhile_cons]
      rfl
  | cons x s ih =>
    obtain ⟨n, rfl⟩ : ∃ m, n = m + 1 := ⟨n - 1, by rw [List.length_cons] at hn; omega⟩
    have hx : x ≠ 0 := hs x (List.mem_cons_self ..)
    have htail := ih (fun y hy => hs y (List.mem_cons_of_mem x hy)) (Nat.le_of_succ_le_succ hn)
    rw [List.range_succ_eq_map, List.map_cons, List.map_map, cstr,
      List.takeWhile_cons_of_pos (by simpa [Str.byteAt] using hx)]
    exact congrArg (x :: ·) htail

lemma givenArgs_length (command : Str) : (givenArgs command).length ≤ 33 := by
  rw [givenArgs]
  split
  · exact List.length_take_le ..
  · exact Nat.zero_le _

lemma argument_of_args {b : Pcb} {command : Str} (hb : b.args = (givenArgs command).byteAt) :
    b.argument = givenArgs command := by
  have hlen := givenArgs_length command
  rw [Pcb.argument, hb]
  exact cstr_range (fun _ => givenArgs_ne_zero) (by rw [maxArgLen]; omega)

lemma startStep_args {img : Image} {k k' failed : Kernel} {caller : Caller} {command : Str}
    {buf : Buf} {fault : Ctl} {i : ℤ} (hfailed : failed.ctl.point.entering? = none)
    (hfault : fault.point.entering? = none)
    (hs : startStep img k caller command buf failed fault = some k')
    (hi : k'.ctl.point = .entering i) : (k'.pcbOf i).args = (givenArgs command).byteAt := by
  have hex := executed img k caller command buf
  rw [startStep] at hs
  generalize syscallExecute img k caller command buf = r at hs hex
  cases hex with
  | fails =>
    obtain rfl := Option.some.inj hs
    rw [hi] at hfailed
    exact absurd hfailed (by simp [Point.entering?])
  | faults =>
    obtain rfl := Option.some.inj hs
    have hpoint : fault.point = .entering i := hi
    rw [hpoint] at hfault
    exact absurd hfault (by simp [Point.entering?])
  | @starts d j =>
    obtain rfl := Option.some.inj hs
    have hc := created k j caller (parseCommand command).args
    obtain rfl : (j : ℤ) = i := by
      rw [hc.ctl] at hi
      exact Point.entering.inj hi
    rw [hc.pcbOf, if_pos rfl, parseCommand_eq]
    rfl

/-- A process starts with what the parser handed on, whoever calls `syscall_execute`. -/
lemma executed_args {img : Image} {e : Event} {m m' : Machine} {i : ℤ} {command : Str} {buf : Buf}
    (he : e.command? = some (command, buf)) (hs : m.step img e = some m')
    (hi : m'.kernel.ctl.point = .entering i) :
    (m'.kernel.pcbOf i).args = (givenArgs command).byteAt := by
  obtain ⟨k', hk', rfl⟩ := Option.map_eq_some_iff.1 hs
  obtain ⟨k, live⟩ := m
  dsimp only at hk' hi ⊢
  cases step_cases hk' with
  | execute hpt hs =>
    obtain ⟨rfl, rfl⟩ := Prod.mk.inj (Option.some.inj he)
    exact startStep_args (by rw [hpt]; rfl) rfl hs hi
  | bootExec hpt hs =>
    obtain ⟨rfl, rfl⟩ := Prod.mk.inj (Option.some.inj he)
    exact startStep_args rfl rfl hs hi
  | restartExec hpt hs =>
    obtain ⟨rfl, rfl⟩ := Prod.mk.inj (Option.some.inj he)
    exact startStep_args (haltFinish_entering k) rfl hs hi
  | _ => exact absurd he (by simp [Event.command?])

/-! ### The law of `syscall_getargs` -/

lemma ofNat_maxArgLen : (Int32.ofNat maxArgLen).toInt = 1024 := by decide

/-- The guard refuses only what does not fit into `args`, and a positive number without an
argument. -/
lemma getargs_refused {b : Pcb} {given : Str} (hb : b.args = given.byteAt)
    (hgiven : ∀ x ∈ given, x ≠ 0) {buf buf' : Buf} {nbytes : Int32}
    (h : syscallGetargs b buf nbytes = some (-1, buf')) :
    1024 < nbytes.toInt ∨ given = [] ∧ 0 < nbytes.toInt := by
  rw [syscallGetargs] at h
  split at h
  · rename_i hguard
    rcases hguard with hlarge | ⟨hempty, hpos⟩
    · have hlt := Int32.lt_iff_toInt_lt.1 hlarge
      rw [ofNat_maxArgLen] at hlt
      exact Or.inl hlt
    · exact Or.inr ⟨(strlen_args hb hgiven).1 hempty, Int32.lt_iff_toInt_lt.1 hpos⟩
  split at h
  · exact absurd h (by simp)
  · exact absurd (Prod.mk.inj (Option.some.inj h)).1 (by decide)

/-- The property of a block with a string of at most 1024 bytes at `args`. -/
lemma allOrNothing_iff {b : Pcb} {given : Str} (hb : b.args = given.byteAt)
    (hgiven : ∀ x ∈ given, x ≠ 0) (harg : b.argument = given) (hlen : given.length ≤ 1024)
    (buf : Buf) (nbytes : Int32) :
    AllOrNothing b buf nbytes ↔ (given.length : ℤ) < nbytes.toInt := by
  constructor
  · rintro ⟨ret, buf', hcall, ⟨-, hholds⟩ | ⟨rfl, -⟩, -⟩
    · rw [← harg]
      exact hholds.1
    · -- the call was refused
      rcases getargs_refused hb hgiven hcall with hlarge | ⟨rfl, hpos⟩
      · omega
      · simpa using hpos
  · intro hroom
    have hpos : 0 < nbytes.toInt := by omega
    by_cases hlarge : 1024 < nbytes.toInt
    · have hguard : nbytes > Int32.ofNat maxArgLen :=
        Int32.lt_iff_toInt_lt.2 (by rw [ofNat_maxArgLen]; exact hlarge)
      refine ⟨-1, buf, ?_, Or.inr ⟨rfl, rfl⟩, fun _ _ => rfl⟩
      rw [syscallGetargs, if_pos (Or.inl hguard)]
    by_cases hnil : given = []
    · exact ⟨-1, buf, getargs_of_empty hb hnil (Int32.lt_iff_toInt_lt.2 hpos) buf,
        Or.inr ⟨rfl, rfl⟩, fun _ _ => rfl⟩
    · refine ⟨0, _, getargs_of_ne hb hgiven hnil hpos.le (not_lt.1 hlarge) buf,
        Or.inl ⟨rfl, ?_, fun i hi => ?_⟩, fun i hi => ?_⟩
      · rw [harg]
        exact hroom
      · rw [harg] at hi ⊢
        exact if_pos (by omega)
      · exact if_neg (by omega)

/-- **`syscall_getargs` is all-or-nothing exactly when there is room.**  A process that a command
started calls it, at any time while its slot is its own. -/
theorem getargs_all_or_nothing {img : Image} {e : Event} {m m₁ m₂ : Machine} {i : ℤ}
    {command : Str} {arr : Buf} (he : e.command? = some (command, arr))
    (hs : m.step img e = some m₁) (hi : m₁.kernel.ctl.point = .entering i)
    (hreach : Runs.Reach (Machine.step img) (fun e m => ¬Takes img i e m.kernel) m₁ m₂)
    (buf : Buf) (nbytes : Int32) :
    AllOrNothing (m₂.kernel.pcbOf i) buf nbytes ↔
      ((givenArgs command).length : ℤ) < nbytes.toInt := by
  have hargs : (m₂.kernel.pcbOf i).args = (givenArgs command).byteAt := by
    rw [reach_args hreach, executed_args he hs hi]
  have hlen := givenArgs_length command
  exact allOrNothing_iff hargs (fun _ => givenArgs_ne_zero) (argument_of_args hargs) (by omega)
    buf nbytes

/-- With a program of the right name in the directory, the first shell can execute a command. -/
lemma named_start (command : Str) (h : ((word command).take 32).length ≤ 32) : ∃ m m₁,
    Runs.Reach (Machine.step (namedImage _ h)) (fun _ _ => True) sampleMachine m ∧
      m.step (namedImage _ h) (.execute command noBuf) = some m₁ ∧
      m₁.kernel.ctl.point = .entering 1 := by
  obtain ⟨k, live, hreach, hpoint, hexec⟩ := named_executes command h
  have hs : step (namedImage _ h) (.execute command noBuf) k = some
      ((k.allocate (1 : ℕ)).createProcess (1 : ℕ) (.linkage 0) (parseCommand command).args) := by
    simp only [step, hpoint, startStep]
    rw [hexec]
  exact ⟨_, _, hreach, Machine.step_of hs live, rfl⟩

/-- The longest argument and its `NUL` just fit into 34 bytes. -/
theorem getargs_just_fits : ∃ m : Machine, m.kernel.ctl.point = .entering 1 ∧
    ∀ buf, AllOrNothing (m.kernel.pcbOf 1) buf 34 := by
  obtain ⟨m, m₁, -, hs, hi⟩ :=
    named_start longestCommand (List.length_take_le ..)
  exact ⟨m₁, hi, fun buf =>
    (getargs_all_or_nothing rfl hs hi Runs.Reach.refl buf 34).2 (by decide)⟩

/-- With 33 bytes the `NUL` is cut off, and the call says that all is well. -/
theorem getargs_cut : ¬∀ (img : Image) (e : Event) (m m₁ m₂ : Machine) (i : ℤ) (command : Str)
    (arr : Buf), e.command? = some (command, arr) → m.step img e = some m₁ →
    m₁.kernel.ctl.point = .entering i →
    Runs.Reach (Machine.step img) (fun e m => ¬Takes img i e m.kernel) m₁ m₂ →
    ∀ (buf : Buf) (nbytes : Int32), AllOrNothing (m₂.kernel.pcbOf i) buf nbytes := by
  intro h
  obtain ⟨m, m₁, -, hs, hi⟩ :=
    named_start longestCommand (List.length_take_le ..)
  have hall := h _ _ m m₁ m₁ 1 longestCommand _ rfl hs hi Runs.Reach.refl (fun _ => 0) 33
  have hargs := executed_args rfl hs hi
  have hroom := (allOrNothing_iff hargs (fun _ => givenArgs_ne_zero) (argument_of_args hargs)
    (by decide) _ _).1 hall
  exact absurd hroom (by decide)

end WnajOS
