import WnajOS.LineInput
import WnajOS.Scancode
import WnajOS.TermSteps

/-!
# What one step can do to the lines

Three things change the line of a terminal: a key changes that of the visible terminal, a
`terminal_read` that returns empties that of the scheduled one, and nothing else changes any.
`step_lines` says so once.  A key whose echo faults leaves the line in between.
-/

namespace WnajOS

open LineDiscipline

/-! ### Keys -/

/-- What is left of a key whose echo faults. -/
inductive Input.Cut (inp : Input) : Key UInt8 → Input → Prop
  | insert (chr : UInt8) (hlt : inp.idx.toNat < inputBufferSize - 2) :
      Cut inp (.insert chr) (inp.type chr)
  | tab {n : ℕ} (hn : n ≤ 4) : Cut inp .tab (inp.tab n)
  | erase : Cut inp .erase inp.erase
  | enter : Cut inp .enter (inp.type 10)

namespace Input

variable {inp inp' : Input} {k : Key UInt8}

/-- A key whose echo faults leaves the index inside the array as well. -/
lemma Cut.idx_lt (hcut : inp.Cut k inp') (hk : k ≠ .enter) (h : inp.idx.toNat < inputBufferSize) :
    inp'.idx.toNat < inputBufferSize := by
  cases hcut with
  | insert chr hlt =>
    rw [type_idx chr h]
    omega
  | @tab n =>
    by_cases hle : inp.idx.toNat ≤ inputBufferSize - 2
    · rw [tab_idx n hle]
      rw [inputBufferSize] at h ⊢
      omega
    · rw [tab_of_ge n (by omega)]
      exact h
  | erase =>
    rw [erase_idx]
    omega
  | enter => exact absurd rfl hk

lemma Cut.enter_idx (hcut : inp.Cut .enter inp') (h : inp.idx.toNat < inputBufferSize) :
    inp'.idx.toNat = inp.idx.toNat + 1 := by
  cases hcut
  exact type_idx 10 h

/-- A key whose echo faults has stored at the same indices. -/
lemma Cut.buffer (hcut : inp.Cut k inp') (h : ∀ i ∈ inp.stores k, i < inputBufferSize) {i : ℕ}
    (hi : i ∉ inp.stores k) : inp'.buffer i = inp.buffer i := by
  cases hcut with
  | insert chr hlt =>
    have hkey : inp.key (.insert chr) = inp.type chr := if_pos hlt
    exact hkey ▸ key_buffer h hi
  | tab hn => exact tab_buffer fun hmem => hi (tabStores_subset hn hmem)
  | erase => exact key_buffer (k := .erase) h hi
  | enter => exact key_buffer (k := .enter) h hi

end Input

namespace Display

/-- However an operation ends, the line of the visible terminal is `inp` then and the other lines
are the same. -/
def SetsLine (d : Display) (inp : Input) : Except Display Display → Prop
  | .ok d' => d'.visibleTerm = d.visibleTerm ∧
      ∀ t, (d'.terms t).input = if t = d.visibleTerm then inp else (d.terms t).input
  | .error d' => d'.visibleTerm = d.visibleTerm ∧
      ∀ t, (d'.terms t).input = if t = d.visibleTerm then inp else (d.terms t).input

lemma setLine_setsLine (d : Display) (inp : Input) : SetsLine d inp (.ok (d.setLine inp)) := by
  refine ⟨rfl, fun t => ?_⟩
  by_cases ht : t = d.visibleTerm
  · subst ht
    rw [if_pos rfl, setLine]
    dsimp only
    rw [Function.update_self]
  · rw [if_neg ht, setLine]
    dsimp only
    rw [Function.update_of_ne ht]

lemma SetsLine.line {d d' : Display} {inp : Input} (h : SetsLine d inp (.ok d')) :
    d'.line = inp := by
  rw [Display.line, h.1, h.2, if_pos rfl]

/-- One operation after another. -/
lemma SetsLine.trans {d d' : Display} {inp inp' : Input} {r : Except Display Display}
    (h : SetsLine d inp (.ok d')) (h' : SetsLine d' inp' r) : SetsLine d inp' r := by
  have hset : ∀ t, (if t = d'.visibleTerm then inp' else (d'.terms t).input) =
      if t = d.visibleTerm then inp' else (d.terms t).input := by
    intro t
    rw [h.1, h.2]
    split
    · rfl
    · rfl
  cases r with
  | ok d'' => exact ⟨h'.1.trans h.1, fun t => (h'.2 t).trans (hset t)⟩
  | error d'' => exact ⟨h'.1.trans h.1, fun t => (h'.2 t).trans (hset t)⟩

/-- An echo changes no line. -/
lemma echo_setsLine (chr : UInt8) (d : Display) : SetsLine d d.line (echo chr d) := by
  have hvisible := writePatch_visibleTerm d
  have hline : ∀ t, (if t = d.visibleTerm then d.line else (d.terms t).input) =
      (d.terms t).input := by
    intro t
    split
    · rename_i ht
      rw [ht]
      rfl
    · rfl
  have hdraws := echo_draws chr d
  cases hr : echo chr d with
  | ok d' =>
    rw [hr] at hdraws
    refine ⟨hdraws.visibleTerm.trans hvisible, fun t => ?_⟩
    rw [hdraws.input t, writePatch_terms, hline]
  | error d' =>
    rw [hr] at hdraws
    refine ⟨hdraws.visibleTerm.trans hvisible, fun t => ?_⟩
    rw [hdraws.input t, writePatch_terms, hline]

/-- The line is changed, then a byte echoed. -/
lemma setLine_echo (d : Display) (inp : Input) (chr : UInt8) :
    SetsLine d inp (echo chr (d.setLine inp)) := by
  have hset := setLine_setsLine d inp
  have hecho := echo_setsLine chr (d.setLine inp)
  rw [hset.line] at hecho
  exact hset.trans hecho

lemma typeChar_setsLine (chr : UInt8) (d : Display) :
    SetsLine d (d.line.type chr) (typeChar chr d) := by
  rw [typeChar, Input.type]
  exact setLine_echo d _ _

/-- A fault in the loop of the tabulator key leaves some of the blanks. -/
lemma typeTab_setsLine (n : ℕ) (d : Display) : ∃ m ≤ n, SetsLine d (d.line.tab m) (typeTab n d) ∧
    ∀ d', typeTab n d = .ok d' → m = n := by
  induction n generalizing d with
  | zero => exact ⟨0, le_rfl, ⟨rfl, fun t => by split <;> simp_all [Input.tab, line]⟩, fun _ _ => rfl⟩
  | succ n ih =>
    rw [typeTab]
    by_cases hlt : d.line.idx.toNat < inputBufferSize - 2
    · rw [if_pos hlt]
      have htype := typeChar_setsLine 0x20 d
      cases hr : typeChar 0x20 d with
      | error d₁ =>
        rw [hr] at htype
        refine ⟨1, by omega, ?_, fun d' h => absurd h (by simp [bind, Except.bind])⟩
        rw [Input.tab, if_pos hlt, Input.tab]
        exact htype
      | ok d₁ =>
        rw [hr] at htype
        obtain ⟨m, hm, hset, hdone⟩ := ih d₁
        refine ⟨m + 1, by omega, ?_, fun d' h => by rw [hdone d' h]⟩
        rw [Input.tab, if_pos hlt, ← htype.line]
        exact htype.trans hset
    · rw [if_neg hlt]
      refine ⟨n + 1, le_rfl, ⟨rfl, fun t => ?_⟩, fun _ _ => rfl⟩
      rw [Input.tab, if_neg hlt]
      split
      · rename_i ht
        rw [ht]
        rfl
      · rfl

lemma termSwitch_terms (t : ℕ) (d : Display) : (d.termSwitch t).terms = d.terms := by
  rw [termSwitch]
  split
  · rfl
  · rfl

/-- The branch of `keyboard_handler` for a key that is about the line. -/
def keyStroke (d : Display) : Key UInt8 → Except Display Display
  | .insert chr => if d.line.idx.toNat < inputBufferSize - 2 then typeChar chr d else .ok d
  | .tab => typeTab 4 d
  | .erase => if d.line.idx ≠ 0 then echo 8 (d.setLine d.line.erase) else .ok d
  | .enter => do
    let d ← typeChar 10 d
    return d.setLine { d.line with eol := true }

lemma keyboardHandler_of_lineKey {control : Bool} {chr : UInt8} {k : Key UInt8}
    (h : lineKey control chr = some k) (d : Display) :
    keyboardHandler control chr d = d.keyStroke k := by
  rw [lineKey] at h
  rw [keyboardHandler]
  split
  · rename_i hno
    rw [if_pos hno] at h
    exact absurd h (by simp)
  rename_i hno
  rw [if_neg hno] at h
  split
  · rename_i hswitch
    rw [if_pos hswitch] at h
    exact absurd h (by simp)
  rename_i hswitch
  rw [if_neg hswitch] at h
  split
  · rename_i henter
    rw [if_pos henter] at h
    obtain rfl := Option.some.inj h
    subst henter
    rfl
  rename_i henter
  rw [if_neg henter] at h
  split
  · rename_i htab
    rw [if_pos htab] at h
    obtain rfl := Option.some.inj h
    rfl
  rename_i htab
  rw [if_neg htab] at h
  split
  · rename_i herase
    rw [if_pos herase] at h
    obtain rfl := Option.some.inj h
    rw [keyStroke]
    by_cases hidx : d.line.idx ≠ 0
    · rw [if_pos hidx, if_pos hidx, Input.erase, if_pos hidx]
    · rw [if_neg hidx, if_neg hidx]
  rename_i herase
  rw [if_neg herase] at h
  split
  · rename_i hclear
    rw [if_pos hclear] at h
    exact absurd h (by simp)
  rename_i hclear
  rw [if_neg hclear] at h
  split
  · rename_i hsignal
    rw [if_pos hsignal] at h
    exact absurd h (by simp)
  · rename_i hsignal
    rw [if_neg hsignal] at h
    obtain rfl := Option.some.inj h
    rfl

/-- Control-C. -/
def IsSignal (control : Bool) (chr : UInt8) : Prop := control = true ∧ (chr = 0x63 ∨ chr = 0x43)

instance (control : Bool) (chr : UInt8) : Decidable (IsSignal control chr) :=
  inferInstanceAs (Decidable (_ ∧ _))

/-- The other keys switch terminals, clear the screen, send a signal or do nothing. -/
lemma keyboardHandler_cases {control : Bool} {chr : UInt8} (h : lineKey control chr = none)
    (d : Display) : keyboardHandler control chr d = .ok d ∨
      keyboardHandler control chr d = .ok d.clearPhysScreen ∨
      (chr = 0x3B ∨ chr = 0x3C ∨ chr = 0x3D) ∧
        keyboardHandler control chr d = .ok (d.termSwitch (chr.toNat - 0x3B)) ∨
      IsSignal control chr ∧ keyboardHandler control chr d = d.sendSignal 2 := by
  rw [lineKey] at h
  rw [keyboardHandler]
  split
  · exact Or.inl rfl
  rename_i hno
  rw [if_neg hno] at h
  split
  · rename_i hswitch
    exact Or.inr (Or.inr (Or.inl ⟨hswitch, rfl⟩))
  rename_i hswitch
  rw [if_neg hswitch] at h
  split
  · rename_i henter
    rw [if_pos henter] at h
    exact absurd h (by simp)
  rename_i henter
  rw [if_neg henter] at h
  split
  · rename_i htab
    rw [if_pos htab] at h
    exact absurd h (by simp)
  rename_i htab
  rw [if_neg htab] at h
  split
  · rename_i herase
    rw [if_pos herase] at h
    exact absurd h (by simp)
  rename_i herase
  rw [if_neg herase] at h
  split
  · exact Or.inr (Or.inl rfl)
  rename_i hclear
  rw [if_neg hclear] at h
  split
  · rename_i hsignal
    exact Or.inr (Or.inr (Or.inr ⟨hsignal, rfl⟩))
  · rename_i hsignal
    rw [if_neg hsignal] at h
    exact absurd h (by simp)

/-- None of them changes a line or a page table, and only a signal can fault. -/
lemma keyboardHandler_of_none {control : Bool} {chr : UInt8} (h : lineKey control chr = none)
    (d : Display) : ∃ d', (keyboardHandler control chr d = .ok d' ∨
        keyboardHandler control chr d = .error d' ∧ IsSignal control chr ∧
          (d.terms d.visibleTerm).pid = -1) ∧
      d'.terms = d.terms ∧ d'.paging = d.paging := by
  rcases keyboardHandler_cases h d with heq | heq | ⟨-, heq⟩ | ⟨hsignal, heq⟩
  · exact ⟨d, Or.inl heq, rfl, rfl⟩
  · exact ⟨_, Or.inl heq, rfl, rfl⟩
  · refine ⟨_, Or.inl heq, termSwitch_terms _ d, ?_⟩
    by_cases hne : chr.toNat - 0x3B = d.visibleTerm
    · rw [termSwitch, if_pos hne]
    · exact (termSwitch_fields hne).2.2.2.1
  · rw [heq, sendSignal, if_pos rfl]
    by_cases hpid : (d.terms d.visibleTerm).pid = -1
    · exact ⟨d, Or.inr ⟨if_pos hpid, hsignal, hpid⟩, rfl, rfl⟩
    · exact ⟨_, Or.inl (if_neg hpid), rfl, rfl⟩

/-- What a key does to the lines. -/
inductive KeyEffect (d : Display) : Option (Key UInt8) → Except Display Display → Prop
  | other {d' : Display} (h : ∀ t, (d'.terms t).input = (d.terms t).input) :
      KeyEffect d none (.ok d')
  | fault {d' : Display} (h : ∀ t, (d'.terms t).input = (d.terms t).input) :
      KeyEffect d none (.error d')
  | done {k : Key UInt8} {d' : Display} (h : SetsLine d (d.line.key k) (.ok d')) :
      KeyEffect d (some k) (.ok d')
  | cut {k : Key UInt8} {d' : Display} {inp : Input} (hcut : d.line.Cut k inp)
      (h : SetsLine d inp (.error d')) : KeyEffect d (some k) (.error d')

/-- **What a key does to the lines.** -/
theorem keyboardHandler_lines (control : Bool) (chr : UInt8) (d : Display) :
    KeyEffect d (lineKey control chr) (keyboardHandler control chr d) := by
  -- a key that finds no room
  have hfull : SetsLine d d.line (.ok d) := by
    refine ⟨rfl, fun t => ?_⟩
    split
    · rename_i ht
      rw [ht]
      rfl
    · rfl
  cases hk : lineKey control chr with
  | none =>
    obtain ⟨d', heq | ⟨heq, -⟩, hterms, -⟩ := keyboardHandler_of_none hk d
    · rw [heq]
      exact .other fun t => by rw [hterms]
    · rw [heq]
      exact .fault fun t => by rw [hterms]
  | some k =>
    rw [keyboardHandler_of_lineKey hk]
    cases k with
    | insert c =>
      rw [keyStroke]
      by_cases hidx : d.line.idx.toNat < inputBufferSize - 2
      · rw [if_pos hidx]
        have hkey : d.line.key (.insert c) = d.line.type c := if_pos hidx
        have htype := typeChar_setsLine c d
        cases hr : typeChar c d with
        | error d' =>
          rw [hr] at htype
          exact .cut (.insert c hidx) htype
        | ok d' =>
          rw [hr] at htype
          exact .done (hkey ▸ htype)
      · rw [if_neg hidx]
        have hkey : d.line.key (.insert c) = d.line := if_neg hidx
        exact .done (hkey.symm ▸ hfull)
    | tab =>
      obtain ⟨n, hn, hset, hdone⟩ := typeTab_setsLine 4 d
      rw [keyStroke]
      cases hr : typeTab 4 d with
      | error d' =>
        rw [hr] at hset
        exact .cut (.tab hn) hset
      | ok d' =>
        rw [hdone d' hr, hr] at hset
        exact .done hset
    | erase =>
      rw [keyStroke]
      by_cases hidx : d.line.idx ≠ 0
      · rw [if_pos hidx]
        have hset := setLine_echo d d.line.erase 8
        cases hr : echo 8 (d.setLine d.line.erase) with
        | error d' =>
          rw [hr] at hset
          exact .cut .erase hset
        | ok d' =>
          rw [hr] at hset
          exact .done hset
      · rw [if_neg hidx]
        have hkey : d.line.key .erase = d.line := if_neg hidx
        exact .done (hkey.symm ▸ hfull)
    | enter =>
      -- the byte is stored and echoed, then the line is entered
      have htype := typeChar_setsLine 10 d
      rw [keyStroke]
      cases hr : typeChar 10 d with
      | error d' =>
        rw [hr] at htype
        exact .cut .enter htype
      | ok d' =>
        rw [hr] at htype
        have hkey : d.line.key .enter = { d'.line with eol := true } := by
          rw [htype.line]
          rfl
        refine .done ?_
        rw [hkey]
        exact htype.trans (setLine_setsLine d' _)

end Display

/-! ### Steps -/

/-- No line differs. -/
def SameLines (k k' : Kernel) : Prop := ∀ t, (k'.terms t).input = (k.terms t).input

/-- What one step can do to the lines. -/
inductive LineEffect (k : Kernel) (e : Event) (k' : Kernel) : Prop
  | key {control : Bool} {chr : UInt8} (he : e = .key control chr)
      (h : k.toDisplay.keyboardHandler control chr = .ok k'.toDisplay ∨
        k.toDisplay.keyboardHandler control chr = .error k'.toDisplay) : LineEffect k e k'
  | read {buf : Buf} {nbytes : Int32} (he : e.lineRead? k = some (buf, nbytes))
      (hn : 0 ≤ nbytes.toInt) (heol : (k.terms k.scheduledTerm).input.eol = true)
      (h : ∀ t, (k'.terms t).input =
        if t = k.scheduledTerm then (k.terms t).input.reset else (k.terms t).input) :
      LineEffect k e k'
  | kept (hkey : e.isKey = false) (he : e.lineRead? k = none) (h : SameLines k k') :
      LineEffect k e k'

/-- What a process writes to its terminal changes no line. -/
lemma writeTerm_lines {k k' : Kernel} {cs : List UInt8}
    (h : k.toDisplay.writeTerm cs = .ok k'.toDisplay ∨
      k.toDisplay.writeTerm cs = .error k'.toDisplay) : SameLines k k' := by
  obtain ⟨d₁, hloop, hterms, -⟩ := Display.writeTerm_ends h
  have hdrawn := (Display.writeLoop_draws _ _ _ _).drawn hloop
  intro t
  rw [show k'.terms = k'.toDisplay.terms from rfl, hterms]
  exact (hdrawn.input t).trans ((SameTerms.writePatch k).input t)

/-- **What one step can do to the lines.** -/
theorem step_lines {img : Image} {k k' : Kernel} {e : Event} (hs : step img e k = some k') :
    LineEffect k e k' := by
  cases step_terms hs with
  | key he h => exact .key he h
  | read hkey he hw hn heol h =>
    refine .read he hn heol fun t => ?_
    rw [show k'.terms = k'.toDisplay.terms from rfl, h]
    by_cases ht : t = k.scheduledTerm
    · subst ht
      rw [if_pos rfl]
      simp only [Kernel.setInput, Function.update_self]
      rfl
    · rw [if_neg ht]
      simp only [Kernel.setInput, Function.update_of_ne ht]
  | write hkey he hr h => exact .kept hkey hr (writeTerm_lines h)
  | report he hprinted hclean h =>
    subst he
    refine .kept rfl rfl fun t => ?_
    exact ((Display.showText_drawn h).input t).trans ((SameTerms.writePatch k).input t)
  | kept hkey hr hw hprinted h => exact .kept hkey hr h.input

end WnajOS
