import WnajOS.Keyboard

/-!
# Scancodes (`key_to_ascii` of `kbd.c`)

The keyboard sends one byte when a key goes down and another when it comes up.  `key_to_ascii`
keeps track of the modifier keys and returns the character of a key that goes down; 0 stands for
the keys without one and for everything that comes up.
-/

namespace WnajOS

/-- `kbd_mods`. -/
structure KbdMods where
  lshift : Bool
  rshift : Bool
  capsLock : Bool
  lcontrol : Bool
  rcontrol : Bool
  lalt : Bool
  ralt : Bool
  extended : Bool

/-- `"1234567890-="`. -/
def row0 : Str := [0x31, 0x32, 0x33, 0x34, 0x35, 0x36, 0x37, 0x38, 0x39, 0x30, 0x2D, 0x3D]

/-- `"!@#$%^&*()_+"`. -/
def srow0 : Str := [0x21, 0x40, 0x23, 0x24, 0x25, 0x5E, 0x26, 0x2A, 0x28, 0x29, 0x5F, 0x2B]

/-- `"qwertyuiop[]"`. -/
def row1 : Str := [0x71, 0x77, 0x65, 0x72, 0x74, 0x79, 0x75, 0x69, 0x6F, 0x70, 0x5B, 0x5D]

/-- `"QWERTYUIOP\x7b\x7d"`. -/
def srow1 : Str := [0x51, 0x57, 0x45, 0x52, 0x54, 0x59, 0x55, 0x49, 0x4F, 0x50, 0x7B, 0x7D]

/-- `"asdfghjkl;'"`. -/
def row2 : Str := [0x61, 0x73, 0x64, 0x66, 0x67, 0x68, 0x6A, 0x6B, 0x6C, 0x3B, 0x27]

/-- `"ASDFGHJKL:\""`. -/
def srow2 : Str := [0x41, 0x53, 0x44, 0x46, 0x47, 0x48, 0x4A, 0x4B, 0x4C, 0x3A, 0x22]

/-- `"zxcvbnm,./"`. -/
def row3 : Str := [0x7A, 0x78, 0x63, 0x76, 0x62, 0x6E, 0x6D, 0x2C, 0x2E, 0x2F]

/-- `"ZXCVBNM<>?"`. -/
def srow3 : Str := [0x5A, 0x58, 0x43, 0x56, 0x42, 0x4E, 0x4D, 0x3C, 0x3E, 0x3F]

namespace KbdMods

/-- The modifiers at boot. -/
def none : KbdMods := ⟨false, false, false, false, false, false, false, false⟩

/-- `kbd_mods.lcontrol || kbd_mods.rcontrol`. -/
def control (m : KbdMods) : Bool := m.lcontrol || m.rcontrol

/-- The part of `key_to_ascii` about the modifiers. -/
def modify (keycode : UInt8) (m : KbdMods) : KbdMods :=
  if keycode = 0x2A then { m with lshift := true }
  else if keycode = 0xAA then { m with lshift := false }
  else if keycode = 0x36 then { m with rshift := true }
  else if keycode = 0xB6 then { m with rshift := false }
  else if keycode = 0x3A then { m with capsLock := !m.capsLock }
  else if keycode = 0xBA then m
  else if m.extended ∧ keycode = 0x1D then { m with rcontrol := true }
  else if m.extended ∧ keycode = 0x9D then { m with rcontrol := false }
  else if keycode = 0x1D then { m with lcontrol := true }
  else if keycode = 0x9D then { m with lcontrol := false }
  else if m.extended ∧ keycode = 0x38 then { m with ralt := true }
  else if m.extended ∧ keycode = 0xB8 then { m with ralt := false }
  else if keycode = 0x38 then { m with lalt := true }
  else if keycode = 0xB8 then { m with lalt := false }
  else m

/-- The keys that shift changes. -/
def shiftable (r0 r1 r2 r3 : Str) (tick bar keycode : UInt8) : UInt8 :=
  if 0x02 ≤ keycode ∧ keycode ≤ 0x0D then r0.getD (keycode - 0x02).toNat 0
  else if 0x10 ≤ keycode ∧ keycode ≤ 0x1B then r1.getD (keycode - 0x10).toNat 0
  else if 0x1E ≤ keycode ∧ keycode ≤ 0x28 then r2.getD (keycode - 0x1E).toNat 0
  else if 0x2C ≤ keycode ∧ keycode ≤ 0x35 then r3.getD (keycode - 0x2C).toNat 0
  else if keycode = 0x29 then tick
  else if keycode = 0x2B then bar
  else 0

/-- The character of a key, with the modifiers as they are then. -/
def character (keycode : UInt8) (m : KbdMods) : UInt8 :=
  if keycode = 0x0F then 9
  else if keycode = 0x1C then 10
  else if keycode = 0x0E then 8
  else if keycode = 0x01 then 0x1B
  else if keycode = 0x39 then 0x20
  else if 0x3B ≤ keycode ∧ keycode ≤ 0x3D ∧ (m.lalt ∨ m.ralt) then keycode
  else if (m.lshift || m.rshift) ^^ m.capsLock then
    shiftable srow0 srow1 srow2 srow3 0x7E 0x7C keycode
  else shiftable row0 row1 row2 row3 0x60 0x5C keycode

/-- `key_to_ascii`. -/
def keyToAscii (keycode : UInt8) (m : KbdMods) : UInt8 × KbdMods :=
  let m := m.modify keycode
  if keycode = 0xE0 then (0, { m with extended := true })
  else
    let m := { m with extended := false }
    (m.character keycode, m)

end KbdMods

end WnajOS
