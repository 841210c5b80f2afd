import WnajOS.Library.Runs
import WnajOS.Scancode
import WnajOS.TermSteps

/-!
# The kernel and the keyboard

The events of the kernel are the bytes of `key_to_ascii`.  Those of the `Board` are the scancodes
that the keyboard sends.
-/

namespace WnajOS

/-- The kernel and the modifier keys. -/
structure Board where
  kernel : Kernel
  mods : KbdMods

/-- What happens next: a byte from the keyboard, or anything else. -/
inductive BoardEvent
  | scancode (code : UInt8)
  | other (e : Event)

/-- The event for the kernel. -/
def BoardEvent.event (b : Board) : BoardEvent → Event
  | .scancode code =>
    let (chr, mods) := b.mods.keyToAscii code
    .key mods.control chr
  | .other e => e

/-- The modifier keys afterwards. -/
def BoardEvent.modsAfter (b : Board) : BoardEvent → KbdMods
  | .scancode code => (b.mods.keyToAscii code).2
  | .other _ => b.mods

/-- Keys come as scancodes only. -/
def BoardEvent.Proper : BoardEvent → Prop
  | .scancode _ => True
  | .other e => e.isKey = false

instance : DecidablePred BoardEvent.Proper
  | .scancode _ => .isTrue trivial
  | .other e => inferInstanceAs (Decidable (e.isKey = false))

/-- One step of the kernel with the keyboard. -/
def Board.step (img : Image) (a : BoardEvent) (b : Board) : Option Board :=
  if a.Proper then (WnajOS.step img (a.event b) b.kernel).map (⟨·, a.modsAfter b⟩) else none

/-- The kernel at boot. -/
def Board.boot (l : Layout) (pg : Paging) (vram : ℕ → ℕ → UInt8) (mem : ℤ → Pcb) : Board :=
  ⟨entryState l pg vram mem, KbdMods.none⟩

/-- The kernel at boot on zero memory. -/
def sampleBoard : Board := Board.boot sampleLayout samplePaging (fun _ _ => 0) samplePcbs

end WnajOS
