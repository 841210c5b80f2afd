import WnajOS.Descriptors
import WnajOS.Process

/-!
# Opening entries of any type

`syscall_open` marks the descriptor as in use before it looks at the type of the entry.  For a
strange type it prints a message, leaves the function pointers of the slot as they are and
calls the one for `open`: that of the file that the slot was used for last, or a null pointer.
-/

namespace WnajOS

/-- The entry `e` has the driver table of the file type. -/
def HasDriverOf (fileType : UInt32) (e : FdEntry) : Prop :=
  fileType = 0 ∧ e.fileOps = some .rtc ∨ fileType = 1 ∧ e.fileOps = some .dir ∨
    fileType = 2 ∧ e.fileOps = some .file

/-- The call `open filename` that returned `ret` and led from `k` to `k'` was atomic and
type-correct. -/
structure OpensRight (img : Image) (k : Kernel) (filename : Str) (ret : Int32) (k' : Kernel) :
    Prop where
  /-- a call that fails leaves the descriptor array alone -/
  failed : ret = -1 → k'.pcb.fdArr = k.pcb.fdArr
  /-- a descriptor returned has the driver of the entry's type -/
  driver : 2 ≤ ret → ∃ d, readDentryByName img filename = some d ∧
    HasDriverOf d.fileType (k'.pcb.fdArr (fdIndex ret))
  /-- an entry of any other type makes the call fail -/
  strange : ∀ d, readDentryByName img filename = some d →
    d.fileType ≠ 0 ∧ d.fileType ≠ 1 ∧ d.fileType ≠ 2 → ret = -1

/-- The call `open filename` returns, and was atomic and type-correct. -/
def OpenOk (img : Image) (k : Kernel) (filename : Str) : Prop :=
  ∃ ret k', syscallOpen img k filename = .done (ret, k') ∧ OpensRight img k filename ret k'

lemma driverOf_eq_none {t : UInt32} : driverOf t = none ↔ t ≠ 0 ∧ t ≠ 1 ∧ t ≠ 2 := by
  rw [driverOf]
  by_cases h0 : t = 0
  · simp [h0]
  · by_cases h1 : t = 1
    · simp [h1]
    · by_cases h2 : t = 2
      · simp [h2]
      · simp [h0, h1, h2]

/-- The types that have a driver. -/
lemma driverOf_cases {t : UInt32} {driver : Driver} (h : driverOf t = some driver) :
    t = 0 ∧ driver = .rtc ∨ t = 1 ∧ driver = .dir ∨ t = 2 ∧ driver = .file := by
  rw [driverOf] at h
  by_cases h0 : t = 0
  · rw [if_pos h0] at h
    exact Or.inl ⟨h0, (Option.some.inj h).symm⟩
  · rw [if_neg h0] at h
    by_cases h1 : t = 1
    · rw [if_pos h1] at h
      exact Or.inr (Or.inl ⟨h1, (Option.some.inj h).symm⟩)
    · rw [if_neg h1] at h
      by_cases h2 : t = 2
      · rw [if_pos h2] at h
        exact Or.inr (Or.inr ⟨h2, (Option.some.inj h).symm⟩)
      · rw [if_neg h2] at h
        exact absurd h (by simp)

section Opening

variable {img : Image} {k : Kernel} {filename : Str}

/-- A call that finds no entry, or no vacant slot, fails and changes nothing. -/
lemma openOk_of_fails (h : syscallOpen img k filename = .done (-1, k)) : OpenOk img k filename :=
  ⟨-1, k, h, fun _ => rfl, fun h2 => absurd h2 (by decide), fun _ _ _ => rfl⟩

/-- The result of a call that found the slot `m` is its index, and not -1. -/
lemma ofNat_slot {m : ℕ} (hm : vacantFrom k.pcb.fdArr 7 0 = some m) :
    (Int32.ofNat m).toInt = m ∧ Int32.ofNat m ≠ -1 := by
  obtain ⟨-, hle, -, -⟩ := (vacantFrom_spec _ 7 0).1 m hm
  have hint : (Int32.ofNat m).toInt = m := Int32.toInt_ofNat_of_lt (by omega)
  refine ⟨hint, fun hneg => ?_⟩
  rw [hneg] at hint
  exact absurd hint (by simp)

/-- An entry of a known type is opened with its driver. -/
lemma openOk_of_known {d : DirEntry} {driver : Driver} {m : ℕ}
    (hname : readDentryByName img filename = some d)
    (hm : vacantFrom k.pcb.fdArr 7 0 = some m) (hd : driverOf d.fileType = some driver) :
    OpenOk img k filename := by
  have hcases := driverOf_cases hd
  have hfile : driver.IsFile := by
    rcases hcases with ⟨-, rfl⟩ | ⟨-, rfl⟩ | ⟨-, rfl⟩
    · exact Or.inl rfl
    · exact Or.inr (Or.inl rfl)
    · exact Or.inr (Or.inr rfl)
  obtain ⟨k', hk', -, hfds⟩ := FdsOk.openAt_known k m hd hfile
  obtain ⟨hint, hne⟩ := ofNat_slot hm
  have hindex : fdIndex (Int32.ofNat m) = m := by rw [fdIndex, hint, Int.toNat_natCast]
  refine ⟨Int32.ofNat m, k', ?_, fun h => absurd h hne, fun _ => ⟨d, hname, ?_⟩, ?_⟩
  · rw [syscallOpen, hname]
    dsimp only
    rw [hm]
    dsimp only
    rw [hk']
  · rw [hindex, hfds, Function.update_self]
    rcases hcases with ⟨ht, rfl⟩ | ⟨ht, rfl⟩ | ⟨ht, rfl⟩
    · exact Or.inl ⟨ht, rfl⟩
    · exact Or.inr (Or.inl ⟨ht, rfl⟩)
    · exact Or.inr (Or.inr ⟨ht, rfl⟩)
  · -- a type with a driver is not strange
    intro d' hd' hstrange
    obtain rfl : d = d' := Option.some.inj (hname.symm.trans hd')
    rw [driverOf_eq_none.2 hstrange] at hd
    exact absurd hd (by simp)

/-- With a vacant slot an entry of a strange type is never refused: the call returns the slot,
or jumps to address 0. -/
lemma syscallOpen_strange {d : DirEntry} {m : ℕ}
    (hname : readDentryByName img filename = some d)
    (hm : vacantFrom k.pcb.fdArr 7 0 = some m) :
    (∃ k', syscallOpen img k filename = .done (Int32.ofNat m, k')) ∨
      ∃ k', syscallOpen img k filename = .fault k' := by
  rw [syscallOpen, hname]
  dsimp only
  rw [hm]
  dsimp only
  cases openAt k m d with
  | error k' => exact Or.inr ⟨k', rfl⟩
  | ok k' => exact Or.inl ⟨k', rfl⟩

lemma not_openOk_of_strange {d : DirEntry} {m : ℕ}
    (hname : readDentryByName img filename = some d)
    (hm : vacantFrom k.pcb.fdArr 7 0 = some m)
    (hstrange : d.fileType ≠ 0 ∧ d.fileType ≠ 1 ∧ d.fileType ≠ 2) : ¬OpenOk img k filename := by
  rintro ⟨ret, k', hret, hright⟩
  have hneg := hright.strange d hname hstrange
  rcases syscallOpen_strange hname hm with ⟨k₁, h₁⟩ | ⟨k₁, h₁⟩
  · obtain ⟨rfl, -⟩ := Prod.mk.inj (Outcome.done.inj (h₁.symm.trans hret))
    exact (ofNat_slot hm).2 hneg
  · rw [h₁] at hret
    exact absurd hret (by simp)

end Opening

/-- **When opening is atomic and type-correct.**  In every state, whatever the slots were used
for before: exactly when no entry of a strange type is about to get a vacant slot. -/
theorem open_ok_iff (img : Image) (k : Kernel) (filename : Str) :
    OpenOk img k filename ↔ ∀ d, readDentryByName img filename = some d →
      (vacantFrom k.pcb.fdArr 7 0).isSome → d.fileType = 0 ∨ d.fileType = 1 ∨ d.fileType = 2 := by
  cases hname : readDentryByName img filename with
  | none =>
    refine iff_of_true (openOk_of_fails ?_) fun d hd => absurd hd (by simp)
    rw [syscallOpen, hname]
  | some d =>
    cases hm : vacantFrom k.pcb.fdArr 7 0 with
    | none =>
      refine iff_of_true (openOk_of_fails ?_) fun d _ h => absurd h (by simp)
      rw [syscallOpen, hname]
      dsimp only
      rw [hm]
    | some m =>
      by_cases hstrange : d.fileType ≠ 0 ∧ d.fileType ≠ 1 ∧ d.fileType ≠ 2
      · refine iff_of_false (not_openOk_of_strange hname hm hstrange) fun h => ?_
        have := h d rfl rfl
        tauto
      · obtain ⟨driver, hd⟩ : ∃ driver, driverOf d.fileType = some driver :=
          Option.ne_none_iff_exists'.1 fun hnone => hstrange (driverOf_eq_none.1 hnone)
        refine iff_of_true (openOk_of_known hname hm hd) fun d' hd' _ => ?_
        obtain rfl := Option.some.inj hd'
        tauto

/-- An image whose text file has the type 3. -/
def oddImage : Image :=
  { sampleImage with
    dirEntries := fun i =>
      if i = 2 then sampleEntry fishName length_fishName 3 1 else sampleImage.dirEntries i }

/-- The first shell opens the file of type 3. -/
theorem strange_file_opened : ∃ m,
    Runs.Reach (Machine.step oddImage) (fun _ _ => True) sampleMachine m ∧
      ¬OpenOk oddImage m.kernel fishName := by
  have hrun : (Runs.run (Machine.step oddImage) [.tick, .bootExec noBuf, .enter]
      sampleMachine).any (fun m => decide (vacantFrom m.kernel.pcb.fdArr 7 0 = some 2)) = true := by
    decide +kernel
  obtain ⟨m, hm, hvac⟩ := (Option.any_eq_true _ _).1 hrun
  refine ⟨m, Runs.reach_of_run (fun _ _ => trivial) hm, ?_⟩
  exact not_openOk_of_strange (d := oddImage.dirEntries 2) rfl (of_decide_eq_true hvac)
    (by decide)

end WnajOS
