import WnajOS.Keyboard
import WnajOS.Library.LineDiscipline

/-!
# The line of a terminal

`keyboard_handler` keeps the line of a terminal in the array `input.buffer`, with its length in
`idx` and whether it was entered in `eol`; `terminal_read` hands it out and empties it.  This file
is about one line and one key: what the handler stores, what of it a fault can leave undone,
and how the array represents the lines of the abstract terminal.
-/

namespace WnajOS

open LineDiscipline

/-- The lines of a terminal: `INPUT_BUFFER_SIZE - 2` characters, a tabulator of four blanks. -/
def lineDiscipline : Discipline UInt8 := ⟨inputBufferSize - 2, 4, 0x20, 10⟩

/-- The branch of `keyboard_handler` for a byte, if it is one that is about the line. -/
def lineKey (control : Bool) (chr : UInt8) : Option (Key UInt8) :=
  if chr = 0x1B ∨ chr = 0 then none
  else if chr = 0x3B ∨ chr = 0x3C ∨ chr = 0x3D then none
  else if chr = 10 then some .enter
  else if chr = 9 then some .tab
  else if chr = 8 ∨ chr = 127 then some .erase
  else if control ∧ (chr = 0x6C ∨ chr = 0x4C) then none
  else if control ∧ (chr = 0x63 ∨ chr = 0x43) then none
  else some (.insert chr)

/-- A byte is inserted as it is, and it is none that another branch takes. -/
lemma lineKey_insert {control : Bool} {chr c : UInt8}
    (h : lineKey control chr = some (.insert c)) :
    chr = c ∧ c ≠ 0 ∧ c ≠ 8 ∧ c ≠ 9 ∧ c ≠ 10 := by
  rw [lineKey] at h
  split at h
  · exact absurd h (by simp)
  rename_i h0
  split at h
  · exact absurd h (by simp)
  split at h
  · exact absurd h (by simp)
  rename_i h10
  split at h
  · exact absurd h (by simp)
  rename_i h9
  split at h
  · exact absurd h (by simp)
  rename_i h8
  split at h
  · exact absurd h (by simp)
  split at h
  · exact absurd h (by simp)
  obtain rfl : chr = c := Key.insert.inj (Option.some.inj h)
  exact ⟨rfl, fun hc => h0 (Or.inr hc), fun hc => h8 (Or.inl hc), h9, h10⟩

/-- No branch inserts a newline. -/
lemma lineKey_ne_newline (control : Bool) (chr : UInt8) :
    lineKey control chr ≠ some (.insert lineDiscipline.newline) := by
  intro h
  obtain ⟨-, -, -, -, hne⟩ := lineKey_insert h
  exact hne rfl

/-! ### The line in its array -/

namespace Input

/-- A byte is stored at the end of the line. -/
def type (chr : UInt8) (inp : Input) : Input :=
  let inp := inp.store inp.idx.toNat chr
  { inp with idx := inp.idx + 1 }

/-- The loop of the tabulator key, with `n` blanks left. -/
def tab : ℕ → Input → Input
  | 0, inp => inp
  | n + 1, inp => if inp.idx.toNat < inputBufferSize - 2 then tab n (inp.type 0x20) else inp

/-- The backspace key. -/
def erase (inp : Input) : Input :=
  if inp.idx ≠ 0 then
    { inp with buffer := Function.update inp.buffer (inp.idx - 1).toNat 0x20, idx := inp.idx - 1 }
  else inp

/-- What the handler does to the line. -/
def key (inp : Input) : Key UInt8 → Input
  | .insert chr => if inp.idx.toNat < inputBufferSize - 2 then inp.type chr else inp
  | .tab => inp.tab 4
  | .erase => inp.erase
  | .enter => { inp.type 10 with eol := true }

/-- The indices at which the loop of the tabulator key stores. -/
def tabStores : ℕ → Input → List ℕ
  | 0, _ => []
  | n + 1, inp =>
    if inp.idx.toNat < inputBufferSize - 2 then inp.idx.toNat :: tabStores n (inp.type 0x20) else []

/-- The indices of `buffer` at which the handler stores. -/
def stores (inp : Input) : Key UInt8 → List ℕ
  | .insert _ => if inp.idx.toNat < inputBufferSize - 2 then [inp.idx.toNat] else []
  | .tab => inp.tabStores 4
  | .erase => if inp.idx ≠ 0 then [(inp.idx - 1).toNat] else []
  | .enter => [inp.idx.toNat]

/-- What `terminal_read` leaves. -/
def reset (inp : Input) : Input := { inp with eol := false, idx := 0 }

/-! ### What a key does to `idx` and `eol` -/

lemma toNat_add_one {i : UInt8} (h : i.toNat < 255) : (i + 1).toNat = i.toNat + 1 := by
  have hone : (1 : UInt8).toNat = 1 := rfl
  rw [UInt8.toNat_add, hone]
  exact Nat.mod_eq_of_lt (by omega)

lemma toNat_sub_one {i : UInt8} (h : i ≠ 0) : (i - 1).toNat = i.toNat - 1 := by
  have hpos : (1 : UInt8) ≤ i := by
    rw [UInt8.le_iff_toNat_le]
    have hne : i.toNat ≠ 0 := fun h0 => h (UInt8.toNat_inj.1 h0)
    exact Nat.one_le_iff_ne_zero.2 hne
  exact UInt8.toNat_sub_of_le i 1 hpos

variable {inp : Input}

/-- Inside the array, a byte is stored and the line is longer. -/
lemma type_of_lt (chr : UInt8) (h : inp.idx.toNat < inputBufferSize) : inp.type chr =
    { inp with buffer := Function.update inp.buffer inp.idx.toNat chr, idx := inp.idx + 1 } := by
  rw [type, store, if_pos h]

lemma type_idx (chr : UInt8) (h : inp.idx.toNat < inputBufferSize) :
    (inp.type chr).idx.toNat = inp.idx.toNat + 1 := by
  rw [type_of_lt chr h]
  rw [inputBufferSize] at h
  exact toNat_add_one (by omega)

lemma tab_idx (n : ℕ) (h : inp.idx.toNat ≤ inputBufferSize - 2) : (inp.tab n).idx.toNat =
    min (inp.idx.toNat + n) (inputBufferSize - 2) := by
  induction n generalizing inp with
  | zero =>
    rw [tab]
    omega
  | succ n ih =>
    rw [tab]
    split
    · rename_i hlt
      have hin : inp.idx.toNat < inputBufferSize := by omega
      have htype := type_idx 0x20 hin
      rw [ih (by omega), htype]
      omega
    · omega

/-- The loop of the tabulator key stops at once on a full line. -/
lemma tab_of_ge (n : ℕ) (h : inputBufferSize - 2 ≤ inp.idx.toNat) : inp.tab n = inp := by
  cases n with
  | zero => rfl
  | succ n => rw [tab, if_neg (by omega)]

lemma erase_idx : inp.erase.idx.toNat = inp.idx.toNat - 1 := by
  rw [erase]
  split
  · rename_i h
    exact toNat_sub_one h
  · rename_i h
    rw [not_not.1 h]
    rfl

lemma tab_eol (n : ℕ) (h : inp.idx.toNat ≤ inputBufferSize - 2) : (inp.tab n).eol = inp.eol := by
  induction n generalizing inp with
  | zero => rfl
  | succ n ih =>
    rw [tab]
    split
    · rename_i hlt
      have hsize : inp.idx.toNat < inputBufferSize := by
        rw [inputBufferSize] at hlt ⊢
        omega
      rw [ih (by rw [type_idx _ hsize]; omega), type_of_lt _ hsize]
    · rfl

/-! ### Where a key stores -/

lemma tabStores_lt {n i : ℕ} (h : i ∈ inp.tabStores n) : i < inputBufferSize - 2 := by
  induction n generalizing inp with
  | zero => exact absurd h List.not_mem_nil
  | succ n ih =>
    rw [tabStores] at h
    split at h
    · rename_i hlt
      rcases List.mem_cons.1 h with rfl | h
      · exact hlt
      · exact ih h
    · exact absurd h List.not_mem_nil

/-- The stores of every key but Enter are inside the array. -/
lemma stores_lt {k : Key UInt8} (hk : k ≠ .enter) (h : inp.idx.toNat < inputBufferSize) :
    ∀ i ∈ inp.stores k, i < inputBufferSize := by
  intro i hi
  cases k with
  | insert chr =>
    rw [stores] at hi
    split at hi
    · rw [List.mem_singleton.1 hi]
      exact h
    · exact absurd hi List.not_mem_nil
  | tab =>
    have hlt := tabStores_lt hi
    omega
  | erase =>
    rw [stores] at hi
    split at hi
    · rename_i hne
      rw [List.mem_singleton.1 hi, toNat_sub_one hne]
      omega
    · exact absurd hi List.not_mem_nil
  | enter => exact absurd rfl hk

/-- So is the index they leave. -/
lemma key_idx_lt {k : Key UInt8} (hk : k ≠ .enter) (h : inp.idx.toNat < inputBufferSize) :
    (inp.key k).idx.toNat < inputBufferSize := by
  cases k with
  | insert chr =>
    rw [key]
    split
    · rw [type_idx chr h]
      omega
    · exact h
  | tab =>
    rw [key]
    by_cases hle : inp.idx.toNat ≤ inputBufferSize - 2
    · rw [tab_idx 4 hle]
      rw [inputBufferSize] at h ⊢
      omega
    · rw [tab_of_ge 4 (by omega)]
      exact h
  | erase =>
    rw [key, erase_idx]
    omega
  | enter => exact absurd rfl hk

/-- Enter stores one byte, and the index grows by one. -/
lemma enter_idx (h : inp.idx.toNat < inputBufferSize) :
    (inp.key .enter).idx.toNat = inp.idx.toNat + 1 := type_idx 10 h

lemma type_buffer {i : ℕ} (chr : UInt8) (h : inp.idx.toNat < inputBufferSize)
    (hi : i ≠ inp.idx.toNat) : (inp.type chr).buffer i = inp.buffer i := by
  rw [type_of_lt chr h]
  exact Function.update_of_ne hi ..

lemma tab_buffer {n i : ℕ} (hi : i ∉ inp.tabStores n) : (inp.tab n).buffer i = inp.buffer i := by
  induction n generalizing inp with
  | zero => rfl
  | succ n ih =>
    rw [tabStores] at hi
    rw [tab]
    split
    · rename_i hlt
      rw [if_pos hlt, List.mem_cons, not_or] at hi
      rw [ih hi.2, type_buffer 0x20 (by omega) hi.1]
    · rfl

/-- Fewer blanks are stored at the same places. -/
lemma tabStores_subset {m n : ℕ} (h : m ≤ n) : inp.tabStores m ⊆ inp.tabStores n := by
  induction m generalizing inp n with
  | zero => exact List.nil_subset _
  | succ m ih =>
    obtain ⟨n, rfl⟩ : ∃ n', n = n' + 1 := ⟨n - 1, by omega⟩
    rw [tabStores, tabStores]
    split
    · exact List.cons_subset_cons _ (ih (by omega))
    · exact List.Subset.refl _

/-- The handler changes the array at the indices at which it stores only. -/
lemma key_buffer {k : Key UInt8} (h : ∀ i ∈ inp.stores k, i < inputBufferSize) {i : ℕ}
    (hi : i ∉ inp.stores k) : (inp.key k).buffer i = inp.buffer i := by
  cases k with
  | insert chr =>
    rw [stores] at hi
    rw [key]
    split
    · rename_i hlt
      rw [if_pos hlt, List.mem_singleton] at hi
      exact type_buffer chr (by omega) hi
    · rfl
  | tab => exact tab_buffer hi
  | erase =>
    rw [stores] at hi
    rw [key, erase]
    split
    · rename_i hne
      rw [if_pos hne, List.mem_singleton] at hi
      exact Function.update_of_ne hi ..
    · rfl
  | enter =>
    refine type_buffer 10 (h _ (List.mem_singleton_self _)) ?_
    rintro rfl
    exact hi (List.mem_singleton_self _)

/-! ### The array represents the lines -/

/-- The array holds the line `l`. -/
structure Buffers (inp : Input) (l : List UInt8) : Prop where
  length : inp.idx.toNat = l.length
  holds : Holds inp.buffer l

/-- The array represents the lines `s`: the line being edited, or the one that was entered.  It
has no room for both. -/
inductive Represents (inp : Input) : Lines UInt8 → Prop
  | editing {l : List UInt8} (heol : inp.eol = false) (hl : inp.Buffers l) :
      Represents inp ⟨[], l⟩
  | waiting {l : List UInt8} (heol : inp.eol = true) (hl : inp.Buffers l) :
      Represents inp ⟨[l], []⟩

namespace Buffers

variable {l : List UInt8}

/-- A byte is stored. -/
lemma type (h : inp.Buffers l) (hlt : l.length < inputBufferSize) (chr : UInt8) :
    (inp.type chr).Buffers (l ++ [chr]) := by
  have hidx : inp.idx.toNat < inputBufferSize := by
    rw [h.length]
    exact hlt
  constructor
  · rw [type_idx chr hidx, h.length, List.length_append, List.length_singleton]
  · rw [type_of_lt chr hidx, h.length]
    exact h.holds.snoc chr

/-- The loop of the tabulator key. -/
lemma tab (n : ℕ) (h : inp.Buffers l) (hle : l.length ≤ inputBufferSize - 2) :
    (inp.tab n).Buffers (l ++ List.replicate (min n (inputBufferSize - 2 - l.length)) 0x20) := by
  induction n generalizing inp l with
  | zero =>
    rw [Nat.zero_min, List.replicate_zero, List.append_nil]
    exact h
  | succ n ih =>
    rw [Input.tab]
    split
    · rename_i hlt
      rw [h.length] at hlt
      have hstep := ih (h.type (by omega) 0x20)
        (by rw [List.length_append, List.length_singleton]; omega)
      have hmin : min (n + 1) (inputBufferSize - 2 - l.length) =
          min n (inputBufferSize - 2 - (l ++ [0x20]).length) + 1 := by
        rw [List.length_append, List.length_singleton]
        omega
      rw [hmin, List.replicate_succ]
      rw [List.append_assoc] at hstep
      exact hstep
    · rename_i hge
      rw [h.length] at hge
      have hfull : inputBufferSize - 2 - l.length = 0 := by omega
      rw [hfull, Nat.min_zero, List.replicate_zero, List.append_nil]
      exact h

/-- The backspace key. -/
lemma erase (h : inp.Buffers l) : inp.erase.Buffers l.dropLast := by
  constructor
  · rw [erase_idx, h.length, List.length_dropLast]
  · rw [Input.erase]
    split
    · rename_i hne
      dsimp only
      rw [toNat_sub_one hne, h.length]
      exact h.holds.dropLast 0x20
    · rename_i heq
      have hnil : l = [] := by
        rw [← List.length_eq_zero_iff, ← h.length, not_not.1 heq]
        rfl
      rw [hnil]
      exact Holds.nil _

/-- A key that edits the line. -/
lemma edit (h : inp.Buffers l) (hle : l.length ≤ inputBufferSize - 2) {k : Key UInt8}
    (hk : k ≠ .enter) : (inp.key k).Buffers (lineDiscipline.edit l k) := by
  cases k with
  | insert chr =>
    rw [key, Discipline.edit, h.length]
    by_cases hlt : l.length < inputBufferSize - 2
    · have hcap : l.length < lineDiscipline.capacity := hlt
      rw [if_pos hlt, if_pos hcap]
      exact h.type (by omega) chr
    · have hcap : ¬l.length < lineDiscipline.capacity := hlt
      rw [if_neg hlt, if_neg hcap]
      exact h
  | tab => exact h.tab 4 hle
  | erase => exact h.erase
  | enter => exact absurd rfl hk

end Buffers

/-- Editing keeps `eol`. -/
lemma key_eol (h : inp.idx.toNat ≤ inputBufferSize - 2) {k : Key UInt8} (hk : k ≠ .enter) :
    (inp.key k).eol = inp.eol := by
  cases k with
  | insert chr =>
    rw [key]
    split
    · rename_i hlt
      rw [type_of_lt chr (by rw [inputBufferSize] at hlt ⊢; omega)]
    · rfl
  | tab => exact tab_eol 4 h
  | erase =>
    rw [key, erase]
    split
    · rfl
    · rfl
  | enter => exact absurd rfl hk

/-- **One key refines one step of the abstract terminal**, while no line waits to be read. -/
theorem Represents.key {s : Lines UInt8} (h : inp.Represents s)
    (hroom : s.current.length ≤ inputBufferSize - 2) (heol : inp.eol = false) (k : Key UInt8) :
    (inp.key k).Represents (lineDiscipline.key s k) := by
  cases h with
  | waiting heol' hl => exact absurd (heol.symm.trans heol') (by decide)
  | @editing l _ hl =>
    have hidx : inp.idx.toNat ≤ inputBufferSize - 2 := by
      rw [hl.length]
      exact hroom
    by_cases hk : k = .enter
    · subst hk
      have hsize : l.length < inputBufferSize := by
        dsimp only at hroom
        rw [inputBufferSize] at hroom ⊢
        omega
      have htype := hl.type hsize 10
      exact .waiting rfl ⟨htype.length, htype.holds⟩
    · rw [Discipline.key_of_ne_enter hk]
      exact .editing ((key_eol hidx hk).trans heol) (hl.edit hroom hk)

/-- A line that is typed on behind one that waits is not represented. -/
lemma Represents.eol {s : Lines UInt8} (h : inp.Represents s) :
    inp.eol = true ↔ s.entered ≠ [] := by
  cases h with
  | editing heol => simp [heol]
  | waiting heol => simp [heol]

/-- **One read refines one step of the abstract terminal.** -/
theorem Represents.read {s : Lines UInt8} (h : inp.Represents s) (heol : inp.eol = true)
    (buf : Buf) {nbytes : Int32} (hn : 0 ≤ nbytes.toInt) :
    ∃ l s', s.read nbytes.toInt.toNat = some (l, s') ∧ inp.reset.Represents s' ∧
      terminalRead inp buf nbytes =
        (Int32.ofNat l.length, memcpy buf inp.buffer l.length, inp.reset) ∧
      Holds (terminalRead inp buf nbytes).2.1 l := by
  cases h with
  | editing heol' => exact absurd (heol.symm.trans heol') (by decide)
  | @waiting l _ hl =>
    have hlen : readLen inp nbytes = (l.take nbytes.toInt.toNat).length := by
      rw [readLen, hl.length, List.length_take]
      split <;> omega
    refine ⟨l.take nbytes.toInt.toNat, ⟨[], []⟩, rfl, ?_, ?_, ?_⟩
    · exact .editing rfl ⟨rfl, Holds.nil _⟩
    · rw [terminalRead, hlen]
      rfl
    · intro i hi
      rw [terminalRead]
      dsimp only
      rw [hlen, memcpy, if_pos hi]
      rw [List.length_take] at hi
      rw [hl.holds i (by omega)]
      simp

end Input

end WnajOS
