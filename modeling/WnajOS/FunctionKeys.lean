import WnajOS.LineSteps

/-!
# Function keys and characters

One byte carries both from `key_to_ascii` to `keyboard_handler`: a character, or the scancode of
F1, F2 or F3 when an Alt key is down.  These scancodes are also the codes of the characters
`;`, `<` and `=`, and the handler takes them for function keys whoever sent them.
-/

namespace WnajOS

open LineDiscipline

/-- The printable characters of ASCII. -/
def IsPrintable (chr : UInt8) : Prop := 0x20 ≤ chr ∧ chr ≤ 0x7E

/-- The scancodes of F1, F2 and F3. -/
def IsFunctionKey (code : UInt8) : Prop := 0x3B ≤ code ∧ code ≤ 0x3D

/-- The bytes that make the handler switch terminals. -/
def IsSwitch (chr : UInt8) : Prop := chr = 0x3B ∨ chr = 0x3C ∨ chr = 0x3D

instance : DecidablePred IsFunctionKey := fun _ => inferInstanceAs (Decidable (_ ∧ _))

instance : DecidablePred IsSwitch := fun _ => inferInstanceAs (Decidable (_ ∨ _ ∨ _))

/-- The byte is behind the others in the line. -/
def Input.Appended (inp : Input) (chr : UInt8) (inp' : Input) : Prop :=
  inp'.idx = inp.idx + 1 ∧ inp'.buffer = Function.update inp.buffer inp.idx.toNat chr

namespace Display

/-- `keyboard_handler`, with the scancode read from the keyboard. -/
def keyInterrupt (code : UInt8) (m : KbdMods) (d : Display) : Except Display Display :=
  keyboardHandler (m.keyToAscii code).2.control (m.keyToAscii code).1 d

/-- Only F1, F2 and F3 with an Alt key switch terminals, and a printable character typed without
a control key is appended to the line where there is room. -/
structure KeyOk (code : UInt8) (m : KbdMods) (d d' : Display) : Prop where
  switched : d'.visibleTerm ≠ d.visibleTerm → IsFunctionKey code ∧ (m.lalt ∨ m.ralt)
  appended : IsPrintable (m.keyToAscii code).1 → ¬IsFunctionKey code →
    (m.keyToAscii code).2.control = false → d.line.idx.toNat < inputBufferSize - 2 →
      d.line.Appended (m.keyToAscii code).1 (d'.terms d.visibleTerm).input

/-- However the handler ends, the key has done what it should. -/
def KeyDone (code : UInt8) (m : KbdMods) (d : Display) : Prop :=
  ∀ d', keyInterrupt code m d = .ok d' ∨ keyInterrupt code m d = .error d' → KeyOk code m d d'

/-- A character that the handler takes for a function key does no harm: its terminal is the
visible one, and it would not be appended. -/
def KeyClear (code : UInt8) (m : KbdMods) (d : Display) : Prop :=
  IsSwitch (m.keyToAscii code).1 → ¬IsFunctionKey code →
    (m.keyToAscii code).1.toNat - 0x3B = d.visibleTerm ∧
      (inputBufferSize - 2 ≤ d.line.idx.toNat ∨ (m.keyToAscii code).2.control = true)

instance (code : UInt8) (m : KbdMods) (d : Display) : Decidable (KeyClear code m d) :=
  inferInstanceAs (Decidable (_ → _ → _ ∧ (_ ∨ _)))

/-- At every key of a sequence of scancodes. -/
def Along (P : UInt8 → KbdMods → Display → Prop) : List UInt8 → KbdMods → Display → Prop
  | [], _, _ => True
  | code :: codes, m, d => P code m d ∧
    ∀ d', keyInterrupt code m d = .ok d' → Along P codes (m.keyToAscii code).2 d'

/-! ### One key -/

/-- `key_to_ascii` returns the scancode of a function key only with an Alt key. -/
lemma alt_of_switch {code : UInt8} {m : KbdMods} (hcode : IsFunctionKey code)
    (h : IsSwitch (m.keyToAscii code).1) : m.lalt ∨ m.ralt := by
  have hcases : code = 0x3B ∨ code = 0x3C ∨ code = 0x3D := by
    obtain ⟨hle, hge⟩ := hcode
    rw [UInt8.le_iff_toNat_le] at hle hge
    simp only [← UInt8.toNat_inj]
    change 0x3B ≤ code.toNat at hle
    change code.toNat ≤ 0x3D at hge
    change code.toNat = 0x3B ∨ code.toNat = 0x3C ∨ code.toNat = 0x3D
    omega
  by_contra hno
  obtain ⟨hl, hr⟩ := not_or.1 hno
  have hl : m.lalt = false := by simpa using hl
  have hr : m.ralt = false := by simpa using hr
  have hzero : (m.keyToAscii code).1 = 0 := by
    rcases hcases with rfl | rfl | rfl <;>
      simp [KbdMods.keyToAscii, KbdMods.modify, KbdMods.character, KbdMods.shiftable, hl, hr]
  rw [hzero] at h
  exact absurd h (by decide)

/-- No other byte makes a terminal visible. -/
lemma keyboardHandler_visibleTerm {control : Bool} {chr : UInt8} {d d' : Display}
    (hswitch : ¬IsSwitch chr)
    (h : keyboardHandler control chr d = .ok d' ∨ keyboardHandler control chr d = .error d') :
    d'.visibleTerm = d.visibleTerm := by
  rw [IsSwitch] at hswitch
  have hlines := keyboardHandler_lines control chr d
  cases hk : lineKey control chr with
  | some k =>
    rw [hk] at hlines
    generalize keyboardHandler control chr d = r at h hlines
    cases hlines with
    | done hset =>
      obtain rfl : _ = d' := by simpa using h
      exact hset.1
    | cut _ hset =>
      obtain rfl : _ = d' := by simpa using h
      exact hset.1
  | none =>
    rcases keyboardHandler_cases hk d with heq | heq | ⟨hbyte, -⟩ | ⟨-, heq⟩
    · obtain rfl : d = d' := by simpa [heq] using h
      rfl
    · obtain rfl : d.clearPhysScreen = d' := by simpa [heq] using h
      rfl
    · exact absurd hbyte hswitch
    · rcases sendSignal_cases 2 d with hsignal | ⟨pending, hsignal⟩
      · obtain rfl : d = d' := by simpa [heq, hsignal] using h
        rfl
      · obtain rfl : { d with pendingSig := pending } = d' := by simpa [heq, hsignal] using h
        rfl

/-- A printable character goes to the branch that inserts. -/
lemma lineKey_printable {chr : UInt8} (h : IsPrintable chr) (hswitch : ¬IsSwitch chr) :
    lineKey false chr = some (.insert chr) := by
  rw [IsSwitch] at hswitch
  obtain ⟨hle, hge⟩ := h
  have hne : ∀ c : UInt8, c < 0x20 ∨ 0x7E < c → chr ≠ c := by
    rintro c hc rfl
    rcases hc with hc | hc
    · exact UInt8.not_le.2 hc hle
    · exact UInt8.not_le.2 hc hge
  have h0 := hne 0 (by decide)
  have h1b := hne 0x1B (by decide)
  have h8 := hne 8 (by decide)
  have h9 := hne 9 (by decide)
  have h10 := hne 10 (by decide)
  have h127 := hne 127 (by decide)
  rw [lineKey, if_neg (by tauto), if_neg hswitch, if_neg h10, if_neg h9, if_neg (by tauto)]
  simp

lemma keyboardHandler_appended {chr : UInt8} {d d' : Display} (h : IsPrintable chr)
    (hswitch : ¬IsSwitch chr) (hidx : d.line.idx.toNat < inputBufferSize - 2)
    (hr : keyboardHandler false chr d = .ok d' ∨ keyboardHandler false chr d = .error d') :
    d.line.Appended chr (d'.terms d.visibleTerm).input := by
  have hlines := keyboardHandler_lines false chr d
  rw [lineKey_printable h hswitch] at hlines
  have htype : d.line.Appended chr (d.line.type chr) := by
    have hlt : d.line.idx.toNat < inputBufferSize := by omega
    rw [Input.type, Input.store, if_pos hlt]
    exact ⟨rfl, rfl⟩
  generalize keyboardHandler false chr d = r at hr hlines
  cases hlines with
  | done hset =>
    obtain rfl : _ = d' := by simpa using hr
    have hline := hset.2 d.visibleTerm
    rw [if_pos rfl, show d.line.key (.insert chr) = d.line.type chr from if_pos hidx] at hline
    rw [hline]
    exact htype
  | @cut _ _ inp hcut hset =>
    obtain rfl : _ = d' := by simpa using hr
    have hline := hset.2 d.visibleTerm
    rw [if_pos rfl] at hline
    rw [hline]
    cases hcut with
    | insert => exact htype

/-- What the handler does with a byte that it takes for a function key. -/
lemma keyInterrupt_switch {code : UInt8} {m : KbdMods} (h : IsSwitch (m.keyToAscii code).1)
    (d : Display) :
    keyInterrupt code m d = .ok (d.termSwitch ((m.keyToAscii code).1.toNat - 0x3B)) := by
  rw [keyInterrupt]
  rw [IsSwitch] at h
  generalize (m.keyToAscii code).1 = chr at h ⊢
  have hno : ¬(chr = 0x1B ∨ chr = 0) := by
    rcases h with rfl | rfl | rfl <;> decide
  rw [keyboardHandler, if_neg hno, if_pos h]

/-- **One key**: the property holds exactly when the key is clear. -/
lemma keyDone_iff (code : UInt8) (m : KbdMods) (d : Display) :
    KeyDone code m d ↔ KeyClear code m d := by
  constructor
  · intro hdone hswitch hchar
    have hok := hdone _ (Or.inl (keyInterrupt_switch hswitch d))
    have hvisible : (m.keyToAscii code).1.toNat - 0x3B = d.visibleTerm := by
      by_contra hne
      refine hchar (hok.switched ?_).1
      rw [(termSwitch_fields hne).2.1]
      exact hne
    refine ⟨hvisible, ?_⟩
    by_contra hroom
    obtain ⟨hidx, hcontrol⟩ := not_or.1 hroom
    have hprintable : IsPrintable (m.keyToAscii code).1 := by
      rcases hswitch with h | h | h <;> rw [h] <;> exact ⟨by decide, by decide⟩
    -- the line is as it was
    have hsame := (hok.appended hprintable hchar (by simpa using hcontrol) (by omega)).1
    rw [termSwitch_terms] at hsame
    exact absurd hsame (by simp [line])
  · intro hclear d' hr
    by_cases hswitch : IsSwitch (m.keyToAscii code).1
    · rw [keyInterrupt_switch hswitch] at hr
      obtain rfl : _ = d' := by simpa using hr
      by_cases hkey : IsFunctionKey code
      · exact ⟨fun _ => ⟨hkey, alt_of_switch hkey hswitch⟩, fun _ hchar => absurd hkey hchar⟩
      · obtain ⟨hvisible, hroom⟩ := hclear hswitch hkey
        rw [termSwitch, if_pos hvisible]
        refine ⟨fun hne => absurd rfl hne, fun _ _ hcontrol hidx => ?_⟩
        rcases hroom with hfull | hheld
        · omega
        · rw [hcontrol] at hheld
          exact absurd hheld (by simp)
    · refine ⟨fun hne => absurd (keyboardHandler_visibleTerm hswitch hr) hne, ?_⟩
      intro hprintable _ hcontrol hidx
      rw [keyInterrupt, hcontrol] at hr
      exact keyboardHandler_appended hprintable hswitch hidx hr

/-- **Function keys and characters are kept apart** in a sequence of scancodes exactly when every
`;`, `<` and `=` in it comes when its terminal is the visible one and the character is not to be
appended, since the line is full or a control key down. -/
theorem keys_kept_apart (codes : List UInt8) (m : KbdMods) (d : Display) :
    Along KeyDone codes m d ↔ Along KeyClear codes m d := by
  induction codes generalizing m d with
  | nil => exact Iff.rfl
  | cons code codes ih =>
    rw [Along, Along, keyDone_iff]
    exact and_congr_right fun _ => forall_congr' fun d' => imp_congr_right fun _ => ih _ d'

/-- The key `=` makes the last terminal visible. -/
theorem equals_sign_switches : ¬∀ (codes : List UInt8) (m : KbdMods) (d : Display),
    Along KeyDone codes m d := by
  intro h
  have hdone := (h [0x0D] KbdMods.none sampleBoot.toDisplay).1
  exact absurd ((keyDone_iff ..).1 hdone) (by decide)

end Display

end WnajOS
