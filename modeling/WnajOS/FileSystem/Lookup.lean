import WnajOS.FileSystem.Image

/-!
# Looking up a name

`read_dentry_by_name` compares a name with those of the directory over 32 bytes, after it has
rejected every longer name.  A bounded comparison of a terminated string with one that may
lack its terminator then decides whether the two names are equal, and the search is the first
match in the list of the entries.
-/

namespace WnajOS

/-- `d` is one of the entries of the directory. -/
def Image.HasEntry (img : Image) (d : DirEntry) : Prop :=
  ∃ j < img.numDirEntries.toNat, img.dirEntries j = d

lemma DirEntry.length_name_le (d : DirEntry) : d.name.length ≤ maxFilenameLen := by
  have h : d.name.length ≤ d.fileName.toList.length := (List.takeWhile_prefix _).length_le
  rwa [Vector.length_toList] at h

/-- A name that fits is compared as a whole. -/
lemma strncmp_fileName {fname : Str} (h : strlen fname ≤ maxFilenameLen) (d : DirEntry) :
    strncmp fname d.fileName.toList maxFilenameLen = 0 ↔ d.name = cstr fname := by
  have hlen : d.fileName.toList.length ≤ maxFilenameLen := by
    rw [Vector.length_toList, maxFilenameLen]
  have htake : cstr (fname.take maxFilenameLen) = cstr fname := by
    rw [cstr, ← List.take_takeWhile]
    exact List.take_of_length_le h
  rw [strncmp_eq_zero, htake, List.take_of_length_le hlen]
  exact eq_comm

/-! ### The search as a first match -/

/-- The entries `i, …, i + n - 1`. -/
def Image.entriesFrom (img : Image) (n i : ℕ) : List DirEntry :=
  (List.range' i n).map img.dirEntries

/-- An entry below the count can be read. -/
lemma readDentryByIndex_of_lt {img : Image} {i : ℕ} (h : i < img.numDirEntries.toNat) :
    readDentryByIndex img (UInt32.ofNat i) = some (img.dirEntries i) := by
  have hlt : img.numDirEntries.toNat < 2 ^ 32 := UInt32.toNat_lt _
  have hnat : (UInt32.ofNat i).toNat = i := by
    rw [UInt32.toNat_ofNat', Nat.mod_eq_of_lt (by omega)]
  rw [readDentryByIndex, if_pos (UInt32.lt_iff_toNat_lt.2 (by rwa [hnat])), hnat]

lemma searchFrom_eq_find {img : Image} {fname : Str} (hlen : strlen fname ≤ maxFilenameLen)
    {n i : ℕ} (h : i + n ≤ img.numDirEntries.toNat) :
    searchFrom img fname n i
      = (img.entriesFrom n i).find? fun d => decide (d.name = cstr fname) := by
  induction n generalizing i with
  | zero => rfl
  | succ n ih =>
    rw [searchFrom, Image.entriesFrom, List.range'_succ, List.map_cons, List.find?_cons]
    by_cases hi : (img.dirEntries i).name = cstr fname
    · rw [if_pos ((strncmp_fileName hlen _).2 hi), decide_eq_true hi,
        readDentryByIndex_of_lt (by omega)]
    · rw [if_neg (mt (strncmp_fileName hlen _).1 hi), decide_eq_false hi, ih (by omega)]
      rfl

/-- The lookup is the first match among the entries it goes through. -/
lemma readDentryByName_eq_find (img : Image) (fname : Str) : readDentryByName img fname
    = (img.entriesFrom img.numDirEntries.toInt32.toInt.toNat 0).find?
        fun d => decide (d.name = cstr fname) := by
  rw [readDentryByName]
  by_cases hlen : strlen fname > maxFilenameLen
  · -- no entry has so long a name
    rw [if_pos hlen, eq_comm, List.find?_eq_none]
    intro d _ hd
    have hname : d.name = cstr fname := of_decide_eq_true hd
    have hle := d.length_name_le
    rw [hname] at hle
    exact absurd hlen (not_lt.2 hle)
  · rw [if_neg hlen]
    refine searchFrom_eq_find (not_lt.1 hlen) ?_
    rw [Nat.zero_add]
    exact toNat_toInt_toInt32_le _

/-- The entry found is one of the directory, and has the name looked for. -/
theorem readDentryByName_spec {img : Image} {fname : Str} {d : DirEntry}
    (h : readDentryByName img fname = some d) :
    img.HasEntry d ∧ d.name = cstr fname := by
  rw [readDentryByName_eq_find] at h
  have hmem := List.mem_of_find?_eq_some h
  rw [Image.entriesFrom, List.mem_map] at hmem
  obtain ⟨j, hj, rfl⟩ := hmem
  have hlt : j < img.numDirEntries.toInt32.toInt.toNat := by
    have := List.mem_range'_1.1 hj
    omega
  exact ⟨⟨j, lt_of_lt_of_le hlt (toNat_toInt_toInt32_le _), rfl⟩,
    by simpa only [decide_eq_true_eq] using List.find?_some h⟩

/-! ### The first entry of a name -/

section FirstMatch

variable {img : Image} {fname : Str} (hn : img.numDirEntries.toNat < 2 ^ 31)

include hn

/-- No entry has the name exactly when the lookup fails. -/
lemma readDentryByName_eq_none : readDentryByName img fname = none ↔
    ∀ i < img.numDirEntries.toNat, (img.dirEntries i).name ≠ cstr fname := by
  rw [readDentryByName_eq_find, toNat_toInt_toInt32_of_lt hn, List.find?_eq_none]
  simp only [Image.entriesFrom, List.mem_map, List.mem_range'_1, decide_eq_true_eq,
    forall_exists_index, and_imp]
  constructor
  · intro h i hi
    exact h _ i (Nat.zero_le i) (by omega) rfl
  · rintro h d i - hi rfl
    exact h i (by omega)

/-- The first entry of a name is the one found. -/
lemma readDentryByName_of_first {i : ℕ} (hi : i < img.numDirEntries.toNat)
    (hname : (img.dirEntries i).name = cstr fname)
    (hfirst : ∀ j < i, (img.dirEntries j).name ≠ cstr fname) :
    readDentryByName img fname = some (img.dirEntries i) := by
  have hsplit : img.entriesFrom img.numDirEntries.toNat 0 = img.entriesFrom i 0
      ++ img.dirEntries i :: img.entriesFrom (img.numDirEntries.toNat - i - 1) (i + 1) := by
    rw [Image.entriesFrom, show img.numDirEntries.toNat
      = i + (img.numDirEntries.toNat - i - 1 + 1) by omega, ← List.range'_append_1,
      List.map_append, Nat.zero_add, List.range'_succ, List.map_cons]
    simp only [Image.entriesFrom, Nat.add_sub_cancel_left, Nat.add_sub_cancel]
  have hbefore : (img.entriesFrom i 0).find? (fun d => decide (d.name = cstr fname)) = none := by
    rw [List.find?_eq_none]
    intro d hd
    obtain ⟨j, hj, rfl⟩ := List.mem_map.1 hd
    have hji := List.mem_range'_1.1 hj
    simpa only [decide_eq_true_eq] using hfirst j (by omega)
  rw [readDentryByName_eq_find, toNat_toInt_toInt32_of_lt hn, hsplit, List.find?_append, hbefore,
    Option.none_or, List.find?_cons, decide_eq_true hname]

end FirstMatch

/-! ### The functions with their out parameter

`read_dentry_by_name` returns 0 or -1 and stores the entry through a pointer; the result of
`read_dentry_by_index`, which it calls for the entry it has found, is not looked at. -/

/-- `read_dentry_by_index`: its result and `*dentry`. -/
def readDentryByIndexInto (img : Image) (index : UInt32) (dentry : DirEntry) :
    Int32 × DirEntry :=
  if index < img.numDirEntries then (0, img.dirEntries index.toNat) else (-1, dentry)

/-- The search loop of `read_dentry_by_name`, with `n` entries left, at entry `i`. -/
def searchInto (img : Image) (fname : Str) : (n i : ℕ) → DirEntry → Int32 × DirEntry
  | 0, _, dentry => (-1, dentry)
  | n + 1, i, dentry =>
    if strncmp fname (img.dirEntries i).fileName.toList maxFilenameLen = 0 then
      (0, (readDentryByIndexInto img (UInt32.ofNat i) dentry).2)
    else searchInto img fname n (i + 1) dentry

/-- `read_dentry_by_name`: its result and `*dentry`. -/
def readDentryByNameInto (img : Image) (fname : Str) (dentry : DirEntry) : Int32 × DirEntry :=
  if strlen fname > maxFilenameLen then (-1, dentry)
  else searchInto img fname img.numDirEntries.toInt32.toInt.toNat 0 dentry

/-- What the two functions do with their out parameter. -/
def stored (dentry : DirEntry) : Option DirEntry → Int32 × DirEntry
  | some d => (0, d)
  | none => (-1, dentry)

lemma readDentryByIndexInto_eq (img : Image) (index : UInt32) (dentry : DirEntry) :
    readDentryByIndexInto img index dentry = stored dentry (readDentryByIndex img index) := by
  rw [readDentryByIndexInto, readDentryByIndex]
  by_cases h : index < img.numDirEntries
  · rw [if_pos h, if_pos h]
    rfl
  · rw [if_neg h, if_neg h]
    rfl

/-- The loop stops at an entry below the count, for which `read_dentry_by_index` succeeds. -/
lemma searchInto_eq {img : Image} {fname : Str} {n i : ℕ} (dentry : DirEntry)
    (h : i + n ≤ img.numDirEntries.toNat) :
    searchInto img fname n i dentry = stored dentry (searchFrom img fname n i) := by
  induction n generalizing i with
  | zero => rfl
  | succ n ih =>
    rw [searchInto, searchFrom]
    by_cases hcmp : strncmp fname (img.dirEntries i).fileName.toList maxFilenameLen = 0
    · rw [if_pos hcmp, if_pos hcmp, readDentryByIndexInto_eq, readDentryByIndex_of_lt (by omega)]
      rfl
    · rw [if_neg hcmp, if_neg hcmp]
      exact ih (by omega)

/-- The two readings of `read_dentry_by_name` agree. -/
lemma readDentryByNameInto_eq (img : Image) (fname : Str) (dentry : DirEntry) :
    readDentryByNameInto img fname dentry = stored dentry (readDentryByName img fname) := by
  rw [readDentryByNameInto, readDentryByName]
  by_cases hlen : strlen fname > maxFilenameLen
  · rw [if_pos hlen, if_pos hlen]
    rfl
  · rw [if_neg hlen, if_neg hlen]
    refine searchInto_eq dentry ?_
    rw [Nat.zero_add]
    exact toNat_toInt_toInt32_le _

/-! ### Lookup is exact -/

/-- `r` is the outcome of an exact lookup of `fname`, with `dentry` before it. -/
structure ExactLookup (img : Image) (fname : Str) (dentry : DirEntry) (r : Int32 × DirEntry) :
    Prop where
  /-- the result is 0 exactly when some entry has the name -/
  found : r.1 = 0 ↔ ∃ i < img.numDirEntries.toNat, (img.dirEntries i).name = cstr fname
  /-- the entry copied is the first one of the name -/
  first : ∀ i < img.numDirEntries.toNat, (img.dirEntries i).name = cstr fname →
    (∀ j < i, (img.dirEntries j).name ≠ cstr fname) → r = (0, img.dirEntries i)
  /-- otherwise the result is -1 and `dentry` is left alone -/
  absent : (∀ i < img.numDirEntries.toNat, (img.dirEntries i).name ≠ cstr fname) →
    r = (-1, dentry)
  /-- so it is for a name that is too long -/
  long : maxFilenameLen < strlen fname → r = (-1, dentry)
  /-- a proper prefix or extension of a name is not taken for it -/
  similar : ∀ i < img.numDirEntries.toNat,
    cstr fname <+: (img.dirEntries i).name ∨ (img.dirEntries i).name <+: cstr fname →
    (img.dirEntries i).name ≠ cstr fname →
    (∀ j < img.numDirEntries.toNat, j ≠ i → (img.dirEntries j).name ≠ cstr fname) →
    r = (-1, dentry)

/-- **Name lookup is exact.** -/
theorem name_lookup_exact (img : Image) (fname : Str) (dentry : DirEntry)
    (hn : img.numDirEntries.toNat ≤ 63) :
    ExactLookup img fname dentry (readDentryByNameInto img fname dentry) := by
  have hn' : img.numDirEntries.toNat < 2 ^ 31 := by omega
  rw [readDentryByNameInto_eq]
  have habsent (h : ∀ i < img.numDirEntries.toNat, (img.dirEntries i).name ≠ cstr fname) :
      stored dentry (readDentryByName img fname) = (-1, dentry) := by
    rw [(readDentryByName_eq_none hn').2 h]
    rfl
  refine ⟨?_, ?_, habsent, ?_, ?_⟩
  · rcases hd : readDentryByName img fname with _ | d
    · have hnone := (readDentryByName_eq_none hn').1 hd
      simp only [stored, show (-1 : Int32) ≠ 0 by decide, false_iff, not_exists, not_and]
      exact hnone
    · obtain ⟨⟨i, hi, rfl⟩, hname⟩ := readDentryByName_spec hd
      simp only [stored, true_iff]
      exact ⟨i, hi, hname⟩
  · intro i hi hname hfirst
    rw [readDentryByName_of_first hn' hi hname hfirst]
    rfl
  · -- every name of the directory fits in its field
    intro hlong
    refine habsent fun i _ hname => ?_
    have hle := (img.dirEntries i).length_name_le
    rw [hname] at hle
    exact absurd hlong (not_lt.2 hle)
  · intro i hi _ hne hothers
    refine habsent fun j hj => ?_
    rcases eq_or_ne j i with rfl | hji
    · exact hne
    · exact hothers j hj hji

/-- The name `fis` is not found, although it begins the name `fish`. -/
theorem name_lookup_exact_prefix :
    ExactLookup sampleImage [102, 105, 115] (sampleImage.dirEntries 0)
      (readDentryByNameInto sampleImage [102, 105, 115] (sampleImage.dirEntries 0)) :=
  name_lookup_exact sampleImage [102, 105, 115] (sampleImage.dirEntries 0) (by decide)

end WnajOS
