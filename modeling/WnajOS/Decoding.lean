import WnajOS.Scancode

/-!
# Keys and what `key_to_ascii` makes of them

A key is identified by its scancode, below `0x80`; a press sends the code and a release the code
with bit 7 set, both behind `0xE0` for the keys on the right and in the extended blocks.  The flags of
`kbd_mods` are compared with the keys held and the presses of Caps Lock, the results with the US
layout, in which Caps Lock concerns letters only.  The decoder has no such exception: Caps Lock
also exchanges digits and signs.
-/

namespace WnajOS

/-! ### The keyboard -/

/-- A key with its characters. -/
structure CharKey where
  code : UInt8
  plain : UInt8
  shifted : UInt8
deriving DecidableEq

/-- The main block of the US layout. -/
def usLayout : List CharKey := [
  -- 1 to 0, minus, equals
  ⟨0x02, 0x31, 0x21⟩, ⟨0x03, 0x32, 0x40⟩, ⟨0x04, 0x33, 0x23⟩, ⟨0x05, 0x34, 0x24⟩,
  ⟨0x06, 0x35, 0x25⟩, ⟨0x07, 0x36, 0x5E⟩, ⟨0x08, 0x37, 0x26⟩, ⟨0x09, 0x38, 0x2A⟩,
  ⟨0x0A, 0x39, 0x28⟩, ⟨0x0B, 0x30, 0x29⟩, ⟨0x0C, 0x2D, 0x5F⟩, ⟨0x0D, 0x3D, 0x2B⟩,
  -- Q to P, the square brackets
  ⟨0x10, 0x71, 0x51⟩, ⟨0x11, 0x77, 0x57⟩, ⟨0x12, 0x65, 0x45⟩, ⟨0x13, 0x72, 0x52⟩,
  ⟨0x14, 0x74, 0x54⟩, ⟨0x15, 0x79, 0x59⟩, ⟨0x16, 0x75, 0x55⟩, ⟨0x17, 0x69, 0x49⟩,
  ⟨0x18, 0x6F, 0x4F⟩, ⟨0x19, 0x70, 0x50⟩, ⟨0x1A, 0x5B, 0x7B⟩, ⟨0x1B, 0x5D, 0x7D⟩,
  -- A to L, semicolon, apostrophe
  ⟨0x1E, 0x61, 0x41⟩, ⟨0x1F, 0x73, 0x53⟩, ⟨0x20, 0x64, 0x44⟩, ⟨0x21, 0x66, 0x46⟩,
  ⟨0x22, 0x67, 0x47⟩, ⟨0x23, 0x68, 0x48⟩, ⟨0x24, 0x6A, 0x4A⟩, ⟨0x25, 0x6B, 0x4B⟩,
  ⟨0x26, 0x6C, 0x4C⟩, ⟨0x27, 0x3B, 0x3A⟩, ⟨0x28, 0x27, 0x22⟩,
  -- the grave accent, backslash
  ⟨0x29, 0x60, 0x7E⟩, ⟨0x2B, 0x5C, 0x7C⟩,
  -- Z to M, comma, full stop, slash
  ⟨0x2C, 0x7A, 0x5A⟩, ⟨0x2D, 0x78, 0x58⟩, ⟨0x2E, 0x63, 0x43⟩, ⟨0x2F, 0x76, 0x56⟩,
  ⟨0x30, 0x62, 0x42⟩, ⟨0x31, 0x6E, 0x4E⟩, ⟨0x32, 0x6D, 0x4D⟩, ⟨0x33, 0x2C, 0x3C⟩,
  ⟨0x34, 0x2E, 0x3E⟩, ⟨0x35, 0x2F, 0x3F⟩,
  -- Backspace, Tab, Enter, Space
  ⟨0x0E, 0x08, 0x08⟩, ⟨0x0F, 0x09, 0x09⟩, ⟨0x1C, 0x0A, 0x0A⟩, ⟨0x39, 0x20, 0x20⟩]

/-- A letter. -/
def CharKey.isLetter (k : CharKey) : Bool := 0x61 ≤ k.plain ∧ k.plain ≤ 0x7A

/-- A key that Shift changes but Caps Lock does not. -/
def CharKey.isSign (k : CharKey) : Bool := !k.isLetter && k.plain ≠ k.shifted

/-- The character of a key. -/
def CharKey.char (k : CharKey) (shift caps : Bool) : UInt8 :=
  if (if k.isLetter then shift ^^ caps else shift) then k.shifted else k.plain

/-- The codes of keys in the extended blocks that are no modifiers. -/
def IsExtended (code : UInt8) : Prop :=
  code < 0x80 ∧ code ≠ 0x60 ∧ code ∉ [0x1D, 0x2A, 0x36, 0x38, 0x3A]

/-- The keys. -/
inductive BoardKey
  | char (k : {k // k ∈ usLayout})
  | lshift
  | rshift
  | capsLock
  | lcontrol
  | rcontrol
  | lalt
  | ralt
  | extended (code : {code // IsExtended code})
deriving DecidableEq

namespace BoardKey

/-- The scancode of a key. -/
def code : BoardKey → UInt8
  | char k => k.val.code
  | lshift => 0x2A
  | rshift => 0x36
  | capsLock => 0x3A
  | lcontrol => 0x1D
  | rcontrol => 0x1D
  | lalt => 0x38
  | ralt => 0x38
  | extended code => code

/-- The keys whose codes come behind `0xE0`. -/
def isExtended : BoardKey → Bool
  | rcontrol => true
  | ralt => true
  | extended _ => true
  | _ => false

end BoardKey

/-- A key goes down or comes up. -/
structure KeyEvent where
  key : BoardKey
  down : Bool

/-- The last byte of a press or a release. -/
def KeyEvent.code (e : KeyEvent) : UInt8 := if e.down then e.key.code else e.key.code + 0x80

/-- The bytes of a press or a release. -/
def KeyEvent.codes (e : KeyEvent) : List UInt8 :=
  if e.key.isExtended then [0xE0, e.code] else [e.code]

/-- The key is down after these events. -/
def held (es : List KeyEvent) (k : BoardKey) : Bool :=
  es.foldl (fun h e => if e.key = k then e.down else h) false

/-- The presses of Caps Lock. -/
def capsPresses (es : List KeyEvent) : ℕ := es.countP fun e => e.key = .capsLock ∧ e.down

/-- Caps Lock is on. -/
def capsOn (es : List KeyEvent) : Bool := capsPresses es % 2 = 1

/-! ### The decoder -/

/-- The flags after some bytes. -/
def KbdMods.after (m : KbdMods) (codes : List UInt8) : KbdMods :=
  codes.foldl (fun m code => (m.keyToAscii code).2) m

/-- The flags after some events, from the boot on. -/
def decode (es : List KeyEvent) : KbdMods := KbdMods.none.after (es.flatMap KeyEvent.codes)

/-- What `key_to_ascii` returns for the last byte of an event. -/
def KeyEvent.result (e : KeyEvent) (m : KbdMods) : UInt8 :=
  let m := if e.key.isExtended then (m.keyToAscii 0xE0).2 else m
  (m.keyToAscii e.code).1

/-- The result that a key asks for; a press in the extended blocks asks for none. -/
def KeyEvent.expected (es : List KeyEvent) : KeyEvent → Option UInt8
  | ⟨.char k, true⟩ => some (k.val.char (held es .lshift || held es .rshift) (capsOn es))
  | ⟨.extended _, true⟩ => none
  | _ => some 0

/-- The flags are those of the keys held. -/
structure KbdMods.Shows (m : KbdMods) (es : List KeyEvent) : Prop where
  lshift : m.lshift = held es .lshift
  rshift : m.rshift = held es .rshift
  capsLock : m.capsLock = capsOn es
  lcontrol : m.lcontrol = held es .lcontrol
  rcontrol : m.rcontrol = held es .rcontrol
  lalt : m.lalt = held es .lalt
  ralt : m.ralt = held es .ralt

/-- After the events `es` the flags are right, they stay right inside the code of the event `e`,
and the event has the right results. -/
structure Decoded (es : List KeyEvent) (e : KeyEvent) : Prop where
  flags : (decode es).Shows es
  inside : e.key.isExtended →
    ((decode es).keyToAscii 0xE0).1 = 0 ∧ ((decode es).keyToAscii 0xE0).2.Shows es
  result : ∀ chr ∈ e.expected es, e.result (decode es) = chr

/-! ### The keys held -/

lemma held_append (es : List KeyEvent) (e : KeyEvent) (k : BoardKey) :
    held (es ++ [e]) k = if e.key = k then e.down else held es k := by
  rw [held, List.foldl_append]
  rfl

lemma capsOn_append (es : List KeyEvent) (e : KeyEvent) :
    capsOn (es ++ [e]) = (capsOn es ^^ (e.key = .capsLock ∧ e.down)) := by
  rw [capsOn, capsOn, capsPresses, capsPresses, List.countP_append, List.countP_singleton]
  generalize hn : es.countP _ = n
  by_cases hpress : e.key = .capsLock ∧ e.down
  · rcases Nat.mod_two_eq_zero_or_one n with h0 | h1
    · simp [hpress, h0, Nat.add_mod]
    · simp [hpress, h1, Nat.add_mod]
  · simp [hpress]

lemma decode_append (es : List KeyEvent) (e : KeyEvent) :
    decode (es ++ [e]) = (decode es).after e.codes := by
  rw [decode, decode, List.flatMap_append, List.flatMap_singleton, KbdMods.after, List.foldl_append]
  rfl

/-! ### The codes of keys that are no modifiers -/

/-- The codes that the decoder takes for modifiers. -/
def modifierCodes : List UInt8 := [0x2A, 0xAA, 0x36, 0xB6, 0x3A, 0xBA, 0x1D, 0x9D, 0x38, 0xB8]

lemma modify_plain {code : UInt8} (h : code ∉ modifierCodes) (m : KbdMods) : m.modify code = m := by
  simp only [modifierCodes, List.mem_cons, List.not_mem_nil, or_false, not_or] at h
  simp only [KbdMods.modify, h, if_false, and_false]

lemma usLayout_codes : ∀ k ∈ usLayout, (k.code ∉ modifierCodes ∧ k.code ≠ 0xE0) ∧
    (k.code + 0x80 ∉ modifierCodes ∧ k.code + 0x80 ≠ 0xE0) := by
  decide

lemma extended_codes {code : UInt8} (h : IsExtended code) :
    (code ∉ modifierCodes ∧ code ≠ 0xE0) ∧
      (code + 0x80 ∉ modifierCodes ∧ code + 0x80 ≠ 0xE0) := by
  obtain ⟨hlt, h60, hmem⟩ := h
  simp only [modifierCodes, List.mem_cons, List.not_mem_nil, or_false, not_or,
    ← UInt8.toNat_inj, UInt8.lt_iff_toNat_lt, UInt8.toNat_add, UInt8.reduceToNat, ne_eq] at *
  omega

/-- Codes with bit 7 have no character. -/
lemma character_release {code : UInt8} (h : 0x80 ≤ code) (m : KbdMods) : m.character code = 0 := by
  have hne : ∀ c : UInt8, c < 0x80 → code ≠ c := by
    rintro c hc rfl
    exact UInt8.not_le.2 hc h
  have hle : ∀ c : UInt8, c < 0x80 → ¬code ≤ c := fun c hc hcode =>
    UInt8.not_le.2 hc (UInt8.le_trans h hcode)
  simp [KbdMods.character, KbdMods.shiftable, hne, hle]

/-- The character of a key, as the decoder selects it. -/
lemma character_layout : ∀ k ∈ usLayout, ∀ m : KbdMods, m.character k.code =
    if (m.lshift || m.rshift) ^^ m.capsLock then k.shifted else k.plain := by
  have hall : ∀ k ∈ usLayout, ¬(0x3B ≤ k.code ∧ k.code ≤ 0x3D) ∧ ∀ shift : Bool,
      (if k.code = 0x0F then 9
      else if k.code = 0x1C then 10
      else if k.code = 0x0E then 8
      else if k.code = 0x01 then 0x1B
      else if k.code = 0x39 then 0x20
      else if shift then KbdMods.shiftable srow0 srow1 srow2 srow3 0x7E 0x7C k.code
      else KbdMods.shiftable row0 row1 row2 row3 0x60 0x5C k.code) =
        if shift then k.shifted else k.plain := by
    decide +kernel
  intro k hk m
  obtain ⟨hfunction, hchar⟩ := hall k hk
  rw [← hchar, KbdMods.character]
  have hno : ¬(0x3B ≤ k.code ∧ k.code ≤ 0x3D ∧ (m.lalt ∨ m.ralt)) := fun h => hfunction ⟨h.1, h.2.1⟩
  rw [if_neg hno]

/-! ### One event -/

/-- What a press or a release of a key does to the flags. -/
def BoardKey.set (down : Bool) (m : KbdMods) : BoardKey → KbdMods
  | lshift => { m with lshift := down }
  | rshift => { m with rshift := down }
  | capsLock => { m with capsLock := m.capsLock ^^ down }
  | lcontrol => { m with lcontrol := down }
  | rcontrol => { m with rcontrol := down }
  | lalt => { m with lalt := down }
  | ralt => { m with ralt := down }
  | char _ => m
  | extended _ => m

lemma keyToAscii_e0 (m : KbdMods) : m.keyToAscii 0xE0 = (0, { m with extended := true }) := by
  have hplain : m.modify 0xE0 = m := modify_plain (by decide) m
  rw [KbdMods.keyToAscii, if_pos rfl, hplain]

lemma keyToAscii_plain {code : UInt8} (h : code ∉ modifierCodes ∧ code ≠ 0xE0) (m : KbdMods) :
    m.keyToAscii code =
      (KbdMods.character code { m with extended := false }, { m with extended := false }) := by
  rw [KbdMods.keyToAscii, if_neg h.2, modify_plain h.1]

/-- The last byte of an event of a key that is no modifier. -/
lemma KeyEvent.code_plain {code : UInt8} (h : (code ∉ modifierCodes ∧ code ≠ 0xE0) ∧
    (code + 0x80 ∉ modifierCodes ∧ code + 0x80 ≠ 0xE0)) {e : KeyEvent} (he : e.key.code = code) :
    e.code ∉ modifierCodes ∧ e.code ≠ 0xE0 := by
  rw [KeyEvent.code, he]
  split
  · exact h.1
  · exact h.2

/-- **What the bytes of an event do to the flags**, with no `0xE0` pending. -/
lemma after_codes {m : KbdMods} (hm : m.extended = false) (e : KeyEvent) :
    m.after e.codes = e.key.set e.down m := by
  obtain ⟨key, down⟩ := e
  obtain ⟨l, r, caps, lc, rc, la, ra, ext⟩ := m
  obtain rfl : ext = false := hm
  cases key with
  | char k =>
    have hcode := KeyEvent.code_plain (usLayout_codes k.val k.property) (e := ⟨.char k, down⟩) rfl
    rw [KeyEvent.codes, if_neg (by simp [BoardKey.isExtended]), KbdMods.after, List.foldl_cons,
      List.foldl_nil, keyToAscii_plain hcode]
    rfl
  | extended code =>
    have hcode := KeyEvent.code_plain (extended_codes code.property)
      (e := ⟨.extended code, down⟩) rfl
    rw [KeyEvent.codes, if_pos (by simp [BoardKey.isExtended]), KbdMods.after, List.foldl_cons,
      List.foldl_cons, List.foldl_nil, keyToAscii_e0, keyToAscii_plain hcode]
    rfl
  | capsLock => cases down <;> cases caps <;> rfl
  | _ => cases down <;> rfl

lemma BoardKey.set_extended (down : Bool) (m : KbdMods) (k : BoardKey) :
    (k.set down m).extended = m.extended := by
  cases k <;> rfl

namespace KbdMods.Shows

variable {m : KbdMods} {es : List KeyEvent}

/-- The flags do not depend on the pending `0xE0`. -/
lemma setExtended (h : m.Shows es) (b : Bool) : KbdMods.Shows { m with extended := b } es :=
  ⟨h.lshift, h.rshift, h.capsLock, h.lcontrol, h.rcontrol, h.lalt, h.ralt⟩

/-- **The step lemma.** -/
lemma set (h : m.Shows es) (e : KeyEvent) : (e.key.set e.down m).Shows (es ++ [e]) := by
  obtain ⟨key, down⟩ := e
  obtain ⟨hl, hr, hcaps, hlc, hrc, hla, hra⟩ := h
  cases key <;> constructor <;>
    simp [BoardKey.set, held_append, capsOn_append, hl, hr, hcaps, hlc, hrc, hla, hra]

end KbdMods.Shows

/-- **The run lemma**: after any events the flags are those of the keys held. -/
lemma decode_shows (es : List KeyEvent) :
    (decode es).Shows es ∧ (decode es).extended = false := by
  induction es using List.reverseRecOn with
  | nil => exact ⟨⟨rfl, rfl, rfl, rfl, rfl, rfl, rfl⟩, rfl⟩
  | append_singleton es e ih =>
    obtain ⟨hshows, hext⟩ := ih
    rw [decode_append, after_codes hext]
    exact ⟨hshows.set e, (BoardKey.set_extended ..).trans hext⟩

/-! ### The results -/

/-- A press of a sign. -/
def KeyEvent.isSignPress : KeyEvent → Bool
  | ⟨.char k, true⟩ => k.val.isSign
  | _ => false

/-- The two ways to select the character of a key agree unless Caps Lock is on and the key is a
sign. -/
lemma CharKey.char_eq_iff (k : CharKey) (shift caps : Bool) :
    (if shift ^^ caps then k.shifted else k.plain) = k.char shift caps ↔
      (k.isSign = true → caps = false) := by
  rw [CharKey.char, CharKey.isSign]
  by_cases hletter : k.isLetter
  · simp [hletter]
  · by_cases hsame : k.plain = k.shifted
    · simp [hletter, hsame]
    · cases shift <;> cases caps <;> simp [hletter, hsame, Ne.symm hsame]

/-- A character key that goes down. -/
lemma result_char {m : KbdMods} {es : List KeyEvent} (h : m.Shows es)
    (k : {k // k ∈ usLayout}) : KeyEvent.result ⟨.char k, true⟩ m =
      if (held es .lshift || held es .rshift) ^^ capsOn es then k.val.shifted else k.val.plain := by
  have hcode := (usLayout_codes k.val k.property).1
  change (m.keyToAscii k.val.code).1 = _
  rw [keyToAscii_plain hcode, character_layout k.val k.property, ← h.lshift, ← h.rshift,
    ← h.capsLock]

/-- No code has bit 7, and none is `0x60`. -/
lemma BoardKey.code_lt (k : BoardKey) : k.code.toNat < 128 ∧ k.code.toNat ≠ 0x60 := by
  cases k with
  | char k =>
    have hall : ∀ k ∈ usLayout, k.code.toNat < 128 ∧ k.code.toNat ≠ 0x60 := by decide
    exact hall k.val k.property
  | extended code =>
    obtain ⟨code, hlt, h60, -⟩ := code
    exact ⟨UInt8.lt_iff_toNat_lt.1 hlt, fun h => h60 (UInt8.toNat_inj.1 h)⟩
  | _ => decide

/-- The last byte of an event decides on its character. -/
lemma KeyEvent.result_eq (e : KeyEvent) (m : KbdMods) :
    ∃ m' : KbdMods, e.result m = m'.character e.code := by
  have hne : e.code ≠ 0xE0 := by
    obtain ⟨hlt, h60⟩ := e.key.code_lt
    rw [KeyEvent.code]
    split
    · intro h
      rw [h] at hlt
      exact absurd hlt (by decide)
    · intro h
      have hsum : (e.key.code.toNat + 128) % 256 = 0xE0 := by
        have hval := congrArg UInt8.toNat h
        rwa [UInt8.toNat_add] at hval
      omega
  rw [KeyEvent.result, KbdMods.keyToAscii, if_neg hne]
  exact ⟨_, rfl⟩

/-- Nothing that comes up has a character. -/
lemma result_release (k : BoardKey) (m : KbdMods) : KeyEvent.result ⟨k, false⟩ m = 0 := by
  obtain ⟨m', hm'⟩ := KeyEvent.result_eq ⟨k, false⟩ m
  rw [hm']
  refine character_release ?_ m'
  have hlt := k.code_lt.1
  change 0x80 ≤ k.code + 0x80
  rw [UInt8.le_iff_toNat_le, UInt8.toNat_add]
  change 128 ≤ (k.code.toNat + 128) % 256
  omega

/-- No modifier has a character. -/
lemma character_modifier : ∀ code ∈ [0x2A, 0x36, 0x3A, 0x1D, 0x38], ∀ m : KbdMods,
    m.character code = 0 := by
  simp [KbdMods.character, KbdMods.shiftable]

lemma result_modifier {k : BoardKey} (hk : k.code ∈ ([0x2A, 0x36, 0x3A, 0x1D, 0x38] : List UInt8))
    (m : KbdMods) : KeyEvent.result ⟨k, true⟩ m = 0 := by
  obtain ⟨m', hm'⟩ := KeyEvent.result_eq ⟨k, true⟩ m
  rw [hm']
  exact character_modifier k.code hk m'

/-- The results, whatever the keys held. -/
lemma expected_cases (es : List KeyEvent) (e : KeyEvent) (m : KbdMods) (h : m.Shows es) :
    (∀ chr ∈ e.expected es, e.result m = chr) ↔ (e.isSignPress = true → capsOn es = false) := by
  obtain ⟨key, down⟩ := e
  cases down with
  | false =>
    have hzero := result_release key m
    cases key <;> simp [KeyEvent.expected, KeyEvent.isSignPress, hzero]
  | true =>
    have hmodifier := result_modifier (k := key) (m := m)
    cases key with
    | char k =>
      simp only [KeyEvent.expected, KeyEvent.isSignPress, Option.mem_some_iff, forall_eq',
        result_char h, CharKey.char_eq_iff]
    | extended c => simp [KeyEvent.expected, KeyEvent.isSignPress]
    | _ =>
      have hzero := hmodifier (by simp [BoardKey.code])
      simp [KeyEvent.expected, KeyEvent.isSignPress, hzero]

/-- **Decoding follows the keys held**: after any events, the next one is decoded right exactly
when it is not a press of a sign while Caps Lock is on. -/
theorem decoding_follows_keys (es : List KeyEvent) (e : KeyEvent) :
    Decoded es e ↔ (e.isSignPress = true → capsOn es = false) := by
  obtain ⟨hshows, -⟩ := decode_shows es
  rw [← expected_cases es e (decode es) hshows]
  constructor
  · exact Decoded.result
  · intro hresult
    refine ⟨hshows, fun _ => ?_, hresult⟩
    rw [keyToAscii_e0]
    exact ⟨rfl, hshows.setExtended true⟩

/-- The key of the digit 1. -/
def digitOne : {k // k ∈ usLayout} := ⟨⟨0x02, 0x31, 0x21⟩, List.mem_cons_self ..⟩

/-- After Caps Lock the key of the digit 1 gives an exclamation mark. -/
theorem caps_lock_shifts_digits : ¬∀ (es : List KeyEvent) (e : KeyEvent), Decoded es e := by
  intro h
  have hresult := (h [⟨.capsLock, true⟩] ⟨.char digitOne, true⟩).result
  rw [expected_cases _ _ _ (decode_shows _).1] at hresult
  exact absurd (hresult rfl) (by decide)

end WnajOS
