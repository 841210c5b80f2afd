import WnajOS.Library.HeapList
import WnajOS.Library.Runs

/-!
# The blinking characters of `fish` (`blink.S`, `blink.h` and `fish.c`)

A blinking character is a cell of `blink_array`.  The cells in use form a linked list, the newest
one in front, that starts at `mp1_list_head`; a cell is free when its location is zero.  The loops
over the list have no bound in the source: here they get the number `n` of cells they may visit.
-/

namespace WnajOS

namespace Fish

open HeapList

/-- The number of cells of `blink_array`, and of characters on the screen. -/
def numCells : ℕ := 80 * 25

/-- `struct mp1_blink_struct`, without the link. -/
@[ext] structure Blinker where
  location : UInt16
  onChar : UInt8
  offChar : UInt8
  onLength : UInt16
  offLength : UInt16
  countdown : UInt16
  status : UInt16
deriving DecidableEq

/-- `struct mp1_blink_struct`.  A pointer is the index of a cell. -/
structure Mp1BlinkStruct extends Blinker where
  next : Option ℕ

/-- A cell of zeros. -/
def zeroCell : Mp1BlinkStruct := ⟨⟨0, 0, 0, 0, 0, 0, 0⟩, none⟩

/-- The variables of `fish` and the video memory mapped by `vidmap`, by offset. -/
structure Memory where
  blinkArray : ℕ → Mp1BlinkStruct
  mp1ListHead : Option ℕ
  vmem : ℕ → UInt8

namespace Memory

/-- The links of the cells. -/
def next (m : Memory) (p : ℕ) : Option ℕ := (m.blinkArray p).next

/-- A store to a cell. -/
def setCell (m : Memory) (p : ℕ) (c : Mp1BlinkStruct) : Memory :=
  { m with blinkArray := Function.update m.blinkArray p c }

@[simp] lemma setCell_self (m : Memory) (p : ℕ) (c : Mp1BlinkStruct) :
    (m.setCell p c).blinkArray p = c := Function.update_self ..

lemma setCell_of_ne (m : Memory) {p q : ℕ} (h : q ≠ p) (c : Mp1BlinkStruct) :
    (m.setCell p c).blinkArray q = m.blinkArray q := Function.update_of_ne h ..

lemma next_setCell (m : Memory) (p : ℕ) (c : Mp1BlinkStruct) :
    (m.setCell p c).next = Function.update m.next p c.next := by
  funext q
  rw [next]
  by_cases hq : q = p
  · rw [hq, setCell_self, Function.update_self]
  · rw [setCell_of_ne m hq, Function.update_of_ne hq, next]

/-- A store to the link at a place, the head or a cell. -/
def setLink (m : Memory) (place : Option ℕ) (q : Option ℕ) : Memory :=
  match place with
  | none => { m with mp1ListHead := q }
  | some c => m.setCell c { m.blinkArray c with next := q }

lemma toBlinker_setLink (m : Memory) (place q : Option ℕ) (c : ℕ) :
    ((m.setLink place q).blinkArray c).toBlinker = (m.blinkArray c).toBlinker := by
  cases place with
  | none => rfl
  | some b =>
    by_cases hc : c = b
    · rw [hc, setLink, setCell_self]
    · rw [setLink, setCell_of_ne m hc]

/-- `mp1_poke`. -/
def mp1Poke (offset : ℕ) (b : UInt8) (m : Memory) : Memory :=
  { m with vmem := Function.update m.vmem offset b }

/-- `mp1_malloc`. -/
def mp1Malloc (m : Memory) : Option ℕ :=
  (List.range numCells).find? fun i => (m.blinkArray i).location = 0

/-- `mp1_free`. -/
def mp1Free (m : Memory) (p : ℕ) : Memory := m.setCell p zeroCell

/-- `mp1_find_helper`. -/
def mp1FindHelper (n : ℕ) (m : Memory) (location : UInt16) : Option (Option ℕ) :=
  search (fun p => location = (m.blinkArray p).location) m.next n m.mp1ListHead

end Memory

/-- What a character of the tasklet's list shows from the countdown 0 on. -/
def Blinker.flipped (b : Blinker) : UInt8 := if b.status &&& 1 = 0 then b.onChar else b.offChar

/-- A turn of the tasklet's loop, but for the poke. -/
def Blinker.tick (b : Blinker) : Blinker :=
  let b := { b with countdown := b.countdown - 1 }
  if b.countdown.toInt16 > 0 then b
  else { b with
    countdown := if b.status &&& 1 = 0 then b.onLength else b.offLength
    status := b.status ^^^ 1 }

/-- The turn of the tasklet's loop that comes to the poke. -/
def Blinker.pokes (b : Blinker) : Bool := ¬(b.countdown - 1).toInt16 > 0

/-- Where a character stands in video memory. -/
def Blinker.offset (b : Blinker) : ℕ := b.location.toNat * 2

/-- What `mp1_ioctl_add` makes of the user's record. -/
def Blinker.start (b : Blinker) : Blinker := { b with status := 1, countdown := b.onLength }

/-- What `mp1_ioctl_sync` makes of the second record. -/
def Blinker.sync (first second : Blinker) : Blinker :=
  { second with
    onLength := first.onLength, offLength := first.offLength, countdown := first.countdown,
    status := first.status }

namespace Memory

/-- A turn of the loop of `mp1_rtc_tasklet`. -/
def taskletTurn (p : ℕ) (m : Memory) : Memory :=
  let b := (m.blinkArray p).toBlinker
  let m := m.setCell p ⟨b.tick, (m.blinkArray p).next⟩
  if b.pokes then m.mp1Poke b.offset b.flipped else m

/-- `mp1_rtc_tasklet`. -/
def mp1RtcTasklet (n : ℕ) (m : Memory) : Option Memory :=
  forEach next taskletTurn n m.mp1ListHead m

/-- `mp1_ioctl_add`, with the record that the user's pointer leads to. -/
def mp1IoctlAdd (user : Mp1BlinkStruct) (m : Memory) : Int32 × Memory :=
  if user.location ≥ UInt16.ofNat numCells then (-1, m)
  else
    match m.mp1Malloc with
    | none => (-1, m)
    | some p =>
      let m := m.setCell p ⟨user.toBlinker.start, m.mp1ListHead⟩
      let m := { m with mp1ListHead := some p }
      (0, m.mp1Poke user.offset user.onChar)

/-- `mp1_ioctl_remove`. -/
def mp1IoctlRemove (n : ℕ) (arg : UInt32) (m : Memory) : Option (Int32 × Memory) := do
  match ← m.mp1FindHelper n arg.toUInt16 with
  | none => some (-1, m)
  | some p =>
    let place ← placeOf m.mp1ListHead m.next p n none
    some (0, (m.setLink place (m.next p)).mp1Free p)

/-- `mp1_ioctl_find`, with the location that the user's pointer leads to; the record is copied to
the user. -/
def mp1IoctlFind (n : ℕ) (location : UInt16) (m : Memory) :
    Option (Int32 × Option Mp1BlinkStruct) := do
  match ← m.mp1FindHelper n location with
  | none => some (-1, none)
  | some p => some (0, some (m.blinkArray p))

/-- `mp1_ioctl_sync`.  The `cmovl` behind the `testb` never moves: the character that is displayed
is the one for off. -/
def mp1IoctlSync (n : ℕ) (arg : UInt32) (m : Memory) : Option (Int32 × Memory) := do
  match ← m.mp1FindHelper n (arg >>> 16).toUInt16 with
  | none => some (-1, m)
  | some p =>
    match ← m.mp1FindHelper n (arg &&& 0xFFFF).toUInt16 with
    | none => some (-1, m)
    | some q =>
      let b := (m.blinkArray p).toBlinker.sync (m.blinkArray q).toBlinker
      let m := m.setCell q ⟨b, (m.blinkArray q).next⟩
      some (0, m.mp1Poke b.offset b.offChar)

end Memory

/-! ### The commands of `fish` -/

/-- A call of `mp1_ioctl`, by its entry of `call_table`, or of `mp1_rtc_tasklet`. -/
inductive Command
  | add (user : Mp1BlinkStruct)
  | remove (arg : UInt32)
  | find (location : UInt16)
  | sync (arg : UInt32)
  | tasklet

/-- What a command returns: the result, and the record that `find` hands over.  The tasklet has no
result. -/
structure Reply (α : Type) where
  ret : Int32
  copy : Option α

/-- A command, with the number of cells that each of its loops may visit. -/
def command (n : ℕ) (c : Command) (m : Memory) : Option (Reply Mp1BlinkStruct × Memory) :=
  match c with
  | .add user => some (⟨(m.mp1IoctlAdd user).1, none⟩, (m.mp1IoctlAdd user).2)
  | .remove arg => (m.mp1IoctlRemove n arg).map fun r => (⟨r.1, none⟩, r.2)
  | .find location => (m.mp1IoctlFind n location).map fun r => (⟨r.1, r.2⟩, m)
  | .sync arg => (m.mp1IoctlSync n arg).map fun r => (⟨r.1, none⟩, r.2)
  | .tasklet => (m.mp1RtcTasklet n).map fun m => (⟨0, none⟩, m)

/-- The replies to a list of commands, and the memory behind them. -/
def commands (n : ℕ) : List Command → Memory → Option (List (Reply Mp1BlinkStruct) × Memory)
  | [], m => some ([], m)
  | c :: cs, m => do
    let (r, m) ← command n c m
    let (rs, m) ← commands n cs m
    some (r :: rs, m)

/-- The memory when `main` has cleared the array. -/
def cleared (vmem : ℕ → UInt8) : Memory := ⟨fun _ => zeroCell, none, vmem⟩

/-! ### The characters as a list

What the array and its links stand for: the list of the blinking characters, the newest one in
front, over the video memory. -/

/-- The blinking characters. -/
structure Blinkers where
  list : List Blinker
  vmem : ℕ → UInt8

namespace Blinkers

/-- A character is drawn. -/
def draw (offset : ℕ) (b : UInt8) (s : Blinkers) : Blinkers :=
  { s with vmem := Function.update s.vmem offset b }

/-- A new character comes first, unless it is off the screen or there are as many as cells. -/
def add (b : Blinker) (s : Blinkers) : Int32 × Blinkers :=
  if b.location.toNat < numCells ∧ s.list.length < numCells then
    (0, { s with list := b.start :: s.list }.draw b.offset b.onChar)
  else (-1, s)

/-- The newest character of a location. -/
def at? (s : Blinkers) (location : UInt16) : Option Blinker :=
  s.list.find? fun b => location = b.location

/-- The newest character of the location is removed. -/
def remove (location : UInt16) (s : Blinkers) : Int32 × Blinkers :=
  if (s.at? location).isSome then
    (0, { s with list := s.list.eraseP fun b => location = b.location })
  else (-1, s)

/-- The newest character of a location gets the phase of the newest one of another location. -/
def sync (first second : UInt16) (s : Blinkers) : Int32 × Blinkers :=
  match s.at? first, s.at? second with
  | some b, some b' =>
    let list := s.list.replaceF fun c => if second = c.location then some (b.sync c) else none
    (0, { s with list := list }.draw b'.offset b'.offChar)
  | _, _ => (-1, s)

/-- What a turn of the tasklet draws. -/
def drawTick (vmem : ℕ → UInt8) (b : Blinker) : ℕ → UInt8 :=
  if b.pokes then Function.update vmem b.offset b.flipped else vmem

/-- All characters go on by one tick, and are drawn in order where they flip. -/
def tick (s : Blinkers) : Blinkers := ⟨s.list.map Blinker.tick, s.list.foldl drawTick s.vmem⟩

/-- A command on the list. -/
def command (c : Command) (s : Blinkers) : Reply Blinker × Blinkers :=
  match c with
  | .add user => (⟨(s.add user.toBlinker).1, none⟩, (s.add user.toBlinker).2)
  | .remove arg => (⟨(s.remove arg.toUInt16).1, none⟩, (s.remove arg.toUInt16).2)
  | .find location =>
    (⟨if (s.at? location).isSome then 0 else -1, s.at? location⟩, s)
  | .sync arg =>
    let r := s.sync (arg >>> 16).toUInt16 (arg &&& 0xFFFF).toUInt16
    (⟨r.1, none⟩, r.2)
  | .tasklet => (⟨0, none⟩, s.tick)

/-- The replies to a list of commands, and the characters behind them. -/
def commands : List Command → Blinkers → List (Reply Blinker) × Blinkers
  | [], s => ([], s)
  | c :: cs, s =>
    let (r, s) := s.command c
    let (rs, s) := commands cs s
    (r :: rs, s)

end Blinkers

/-! ### The array stands for the list -/

/-- The characters at some cells. -/
def Memory.blinkers (m : Memory) (ps : List ℕ) : List Blinker :=
  ps.map fun p => (m.blinkArray p).toBlinker

/-- The list that starts at `mp1_list_head` has the cells `ps`, which hold the characters `s`; the
other cells are free. -/
structure Represents (m : Memory) (s : Blinkers) (ps : List ℕ) : Prop where
  chain : Chain m.next m.mp1ListHead ps
  cells : m.blinkers ps = s.list
  bound : ∀ p ∈ ps, p < numCells
  used : ∀ p ∈ ps, (m.blinkArray p).location ≠ 0
  free : ∀ p < numCells, p ∉ ps → (m.blinkArray p).location = 0
  vmem : m.vmem = s.vmem

lemma represents_cleared (vmem : ℕ → UInt8) : Represents (cleared vmem) ⟨[], vmem⟩ [] :=
  ⟨Chain.nil, rfl, fun _ hp => absurd hp List.not_mem_nil,
    fun _ hp => absurd hp List.not_mem_nil, fun _ _ _ => rfl, rfl⟩

namespace Represents

variable {m : Memory} {s : Blinkers} {ps : List ℕ} {n : ℕ}

lemma length_list (h : Represents m s ps) : s.list.length = ps.length := by
  rw [← h.cells, Memory.blinkers, List.length_map]

/-- There are no more characters than cells. -/
lemma length_le (h : Represents m s ps) : ps.length ≤ numCells := by
  have hsub : ps ⊆ List.range numCells := fun p hp => List.mem_range.2 (h.bound p hp)
  have hle := (h.chain.nodup.subperm hsub).length_le
  rwa [List.length_range] at hle

/-- `mp1_malloc` finds a free cell as long as there is one. -/
lemma malloc (h : Represents m s ps) :
    (m.mp1Malloc = none ∧ ps.length = numCells) ∨
      ∃ p, m.mp1Malloc = some p ∧ p < numCells ∧ p ∉ ps ∧ ps.length < numCells := by
  cases hp : m.mp1Malloc with
  | none =>
    rw [Memory.mp1Malloc] at hp
    refine Or.inl ⟨rfl, le_antisymm h.length_le ?_⟩
    have hsub : List.range numCells ⊆ ps := by
      intro p hp'
      by_contra hfree
      have hzero := h.free p (List.mem_range.1 hp') hfree
      exact List.find?_eq_none.1 hp p hp' (by simpa using hzero)
    have hle := (List.nodup_range.subperm hsub).length_le
    rwa [List.length_range] at hle
  | some p =>
    rw [Memory.mp1Malloc] at hp
    have hlt : p < numCells := List.mem_range.1 (List.mem_of_find?_eq_some hp)
    have hzero : (m.blinkArray p).location = 0 := by simpa using List.find?_some hp
    have hfree : p ∉ ps := fun hin => h.used p hin hzero
    refine Or.inr ⟨p, rfl, hlt, hfree, ?_⟩
    -- the cell is not among them
    have hsub : p :: ps ⊆ List.range numCells := by
      intro c hc
      rcases List.mem_cons.1 hc with rfl | hc
      · exact List.mem_range.2 hlt
      · exact List.mem_range.2 (h.bound c hc)
    have hle := ((List.nodup_cons.2 ⟨hfree, h.chain.nodup⟩).subperm hsub).length_le
    rw [List.length_range, List.length_cons] at hle
    exact hle

/-- `mp1_find_helper` finds the newest character of a location. -/
lemma findHelper (h : Represents m s ps) (hn : numCells ≤ n) (location : UInt16) :
    m.mp1FindHelper n location = some (ps.find? fun p => location = (m.blinkArray p).location) ∧
      s.at? location = (ps.find? fun p => location = (m.blinkArray p).location).map
        fun p => (m.blinkArray p).toBlinker := by
  refine ⟨h.chain.search_eq _ (h.length_le.trans hn), ?_⟩
  rw [Blinkers.at?, ← h.cells, Memory.blinkers, List.find?_map]
  rfl

/-- The cells after a store to one of them. -/
lemma blinkers_setCell_of_notMem {p : ℕ} (hp : p ∉ ps) (c : Mp1BlinkStruct) :
    (m.setCell p c).blinkers ps = m.blinkers ps := by
  refine List.map_congr_left fun q hq => ?_
  have hne : q ≠ p := by
    rintro rfl
    exact hp hq
  rw [m.setCell_of_ne hne]

/-- A new character. -/
lemma add (h : Represents m s ps) {user : Mp1BlinkStruct} (hloc : user.location ≠ 0) :
    (m.mp1IoctlAdd user).1 = (s.add user.toBlinker).1 ∧
      ∃ ps', Represents (m.mp1IoctlAdd user).2 (s.add user.toBlinker).2 ps' := by
  have hcond : user.location ≥ UInt16.ofNat numCells ↔ numCells ≤ user.location.toNat :=
    UInt16.le_iff_toNat_le
  rw [Memory.mp1IoctlAdd, Blinkers.add, h.length_list]
  by_cases hbig : numCells ≤ user.location.toNat
  · rw [if_pos (hcond.2 hbig), if_neg (by omega)]
    exact ⟨rfl, ps, h⟩
  rw [if_neg fun hge => hbig (hcond.1 hge)]
  rcases h.malloc with ⟨hnone, hfull⟩ | ⟨p, hsome, hlt, hfree, hroom⟩
  · rw [hnone, if_neg (by omega)]
    exact ⟨rfl, ps, h⟩
  rw [hsome, if_pos ⟨by omega, hroom⟩]
  refine ⟨rfl, p :: ps, ?_, ?_, ?_, ?_, ?_, ?_⟩
  · have hpush := h.chain.push hfree
    rwa [← m.next_setCell p ⟨user.toBlinker.start, m.mp1ListHead⟩] at hpush
  · have hrest := blinkers_setCell_of_notMem (m := m) hfree ⟨user.toBlinker.start, m.mp1ListHead⟩
    rw [h.cells] at hrest
    have hfirst : ((m.setCell p ⟨user.toBlinker.start, m.mp1ListHead⟩).blinkArray p).toBlinker
        = user.toBlinker.start := by rw [Memory.setCell_self]
    exact congrArg₂ List.cons hfirst hrest
  · intro q hq
    rcases List.mem_cons.1 hq with rfl | hq
    · exact hlt
    · exact h.bound q hq
  · intro q hq
    by_cases hqp : q = p
    · subst hqp
      simp only [Memory.mp1Poke, Memory.setCell_self]
      exact hloc
    · have hin := h.used q ((List.mem_cons.1 hq).resolve_left hqp)
      simpa only [Memory.mp1Poke, m.setCell_of_ne hqp] using hin
  · intro q hq hout
    have hqp : q ≠ p := fun heq => hout (List.mem_cons.2 (Or.inl heq))
    have hzero := h.free q hq fun hin => hout (List.mem_cons_of_mem p hin)
    simpa only [Memory.mp1Poke, m.setCell_of_ne hqp] using hzero
  · exact congrArg (fun v => Function.update v user.offset user.onChar) h.vmem

/-- The cells behind the removal of one of them, whose links are those of the other ones. -/
lemma unlinked (h : Represents m s ps) {p : ℕ} (hp : p ∈ ps) {place : Option ℕ}
    (hchain : Chain (m.setLink place (m.next p)).next (m.setLink place (m.next p)).mp1ListHead
      (ps.erase p)) {list : List Blinker} (hlist : m.blinkers (ps.erase p) = list) :
    Represents ((m.setLink place (m.next p)).mp1Free p) { s with list := list } (ps.erase p) := by
  have hnd := h.chain.nodup
  have hout : p ∉ ps.erase p := List.Nodup.not_mem_erase hnd
  have hcell (c : ℕ) : (((m.setLink place (m.next p)).mp1Free p).blinkArray c).toBlinker =
      if c = p then zeroCell.toBlinker else (m.blinkArray c).toBlinker := by
    rw [Memory.mp1Free]
    by_cases hc : c = p
    · rw [if_pos hc, hc, Memory.setCell_self]
    · rw [if_neg hc, Memory.setCell_of_ne _ hc, Memory.toBlinker_setLink]
  refine ⟨?_, ?_, ?_, ?_, ?_, ?_⟩
  · rw [Memory.mp1Free, Memory.next_setCell]
    refine hchain.congr fun c hc => Function.update_of_ne ?_ _ _
    rintro rfl
    exact hout hc
  · rw [← hlist]
    refine List.map_congr_left fun c hc => ?_
    rw [hcell, if_neg]
    rintro rfl
    exact hout hc
  · exact fun c hc => h.bound c (List.mem_of_mem_erase hc)
  · intro c hc
    have hne : c ≠ p := by
      rintro rfl
      exact hout hc
    rw [hcell, if_neg hne]
    exact h.used c (List.mem_of_mem_erase hc)
  · intro c hc hin
    rw [hcell]
    by_cases hcp : c = p
    · rw [if_pos hcp]
      rfl
    · rw [if_neg hcp]
      exact h.free c hc fun hmem => hin ((List.mem_erase_of_ne hcp).2 hmem)
  · cases place with
    | none => exact h.vmem
    | some c => exact h.vmem

/-- A character is removed. -/
lemma remove (h : Represents m s ps) (hn : numCells ≤ n) (arg : UInt32) :
    ∃ r, m.mp1IoctlRemove n arg = some r ∧ r.1 = (s.remove arg.toUInt16).1 ∧
      ∃ ps', Represents r.2 (s.remove arg.toUInt16).2 ps' := by
  obtain ⟨hfound, hat⟩ := h.findHelper hn arg.toUInt16
  rw [Memory.mp1IoctlRemove, hfound, Blinkers.remove, hat]
  cases hp : ps.find? fun p => arg.toUInt16 = (m.blinkArray p).location with
  | none => exact ⟨_, rfl, rfl, ps, h⟩
  | some p =>
    have hmem := List.mem_of_find?_eq_some hp
    obtain ⟨place, hplace, hchain⟩ := h.chain.unlink_head hmem (h.length_le.trans hn)
    have hlist : m.blinkers (ps.erase p)
        = s.list.eraseP fun b => arg.toUInt16 = b.location := by
      rw [← h.cells, Memory.blinkers, Memory.blinkers, List.eraseP_map, ← eraseP_of_find? hp]
      rfl
    refine ⟨(0, (m.setLink place (m.next p)).mp1Free p), ?_, ?_⟩
    · simp only [Option.bind_eq_bind, Option.bind_some, hplace]
    rw [Option.map_some, Option.isSome_some, if_pos rfl]
    refine ⟨rfl, ps.erase p, h.unlinked hmem ?_ hlist⟩
    cases place with
    | none => exact hchain
    | some c =>
      rw [Memory.setLink, Memory.next_setCell]
      exact hchain.2

/-- A character is looked up. -/
lemma find (h : Represents m s ps) (hn : numCells ≤ n) (location : UInt16) :
    ∃ r, m.mp1IoctlFind n location = some r ∧
      r.1 = (if (s.at? location).isSome then 0 else -1) ∧
      r.2.map Mp1BlinkStruct.toBlinker = s.at? location := by
  obtain ⟨hfound, hat⟩ := h.findHelper hn location
  rw [Memory.mp1IoctlFind, hfound, hat]
  cases ps.find? fun p => location = (m.blinkArray p).location with
  | none => exact ⟨_, rfl, rfl, rfl⟩
  | some p => exact ⟨_, rfl, rfl, rfl⟩

/-- A store to one cell that keeps its link and its location changes one character. -/
lemma store (h : Represents m s ps) {q : ℕ} {b : Blinker}
    (hloc : b.location = (m.blinkArray q).location) (vmem : ℕ → UInt8) :
    Represents { m.setCell q ⟨b, (m.blinkArray q).next⟩ with vmem := vmem }
      ⟨(m.setCell q ⟨b, (m.blinkArray q).next⟩).blinkers ps, vmem⟩ ps := by
  have hcell (c : ℕ) : ((m.setCell q ⟨b, (m.blinkArray q).next⟩).blinkArray c).location
      = (m.blinkArray c).location := by
    by_cases hc : c = q
    · rw [hc, Memory.setCell_self]
      exact hloc
    · rw [m.setCell_of_ne hc]
  refine ⟨?_, rfl, h.bound, fun c hc => ?_, fun c hc hin => ?_, rfl⟩
  · have hnext : (m.setCell q ⟨b, (m.blinkArray q).next⟩).next = m.next := by
      rw [Memory.next_setCell]
      exact Function.update_eq_self q m.next
    exact h.chain.congr fun c _ => congrFun hnext c
  · rw [hcell]
    exact h.used c hc
  · rw [hcell]
    exact h.free c hc hin

/-- The first character of a location, replaced. -/
lemma replaceF_eq {location : UInt16} {f : Blinker → Blinker} {q : ℕ} (hnd : ps.Nodup)
    (hq : ps.find? (fun p => location = (m.blinkArray p).location) = some q) :
    (m.setCell q ⟨f (m.blinkArray q).toBlinker, (m.blinkArray q).next⟩).blinkers ps =
      (m.blinkers ps).replaceF fun c => if location = c.location then some (f c) else none := by
  induction ps with
  | nil => exact absurd hq (by simp)
  | cons c ps ih =>
    have hc := (List.nodup_cons.1 hnd).1
    rw [List.find?_cons] at hq
    by_cases hloc : location = (m.blinkArray c).location
    · rw [decide_eq_true hloc] at hq
      obtain rfl := Option.some.inj hq
      have hrest := blinkers_setCell_of_notMem (m := m) hc
        ⟨f (m.blinkArray c).toBlinker, (m.blinkArray c).next⟩
      simp only [Memory.blinkers, List.map_cons, Memory.setCell_self] at hrest ⊢
      simp only [List.replaceF, if_pos hloc]
      rw [hrest]
    · rw [decide_eq_false hloc] at hq
      have hne : c ≠ q := by
        rintro rfl
        exact hc (List.mem_of_find?_eq_some hq)
      have hrest := ih (List.nodup_cons.1 hnd).2 hq
      simp only [Memory.blinkers, List.map_cons, m.setCell_of_ne hne] at hrest ⊢
      simp only [List.replaceF, if_neg hloc]
      rw [hrest]

/-- A character gets the phase of another one. -/
lemma sync (h : Represents m s ps) (hn : numCells ≤ n) (arg : UInt32) :
    ∃ r, m.mp1IoctlSync n arg = some r ∧
      r.1 = (s.sync (arg >>> 16).toUInt16 (arg &&& 0xFFFF).toUInt16).1 ∧
      ∃ ps', Represents r.2 (s.sync (arg >>> 16).toUInt16 (arg &&& 0xFFFF).toUInt16).2 ps' := by
  obtain ⟨hfirst, hat⟩ := h.findHelper hn (arg >>> 16).toUInt16
  obtain ⟨hsecond, hat'⟩ := h.findHelper hn (arg &&& 0xFFFF).toUInt16
  rw [Memory.mp1IoctlSync, hfirst, Blinkers.sync, hat, hat']
  cases ps.find? fun p => (arg >>> 16).toUInt16 = (m.blinkArray p).location with
  | none => exact ⟨_, rfl, rfl, ps, h⟩
  | some p =>
    simp only [Option.bind_eq_bind, Option.bind_some, hsecond]
    cases hq : ps.find? fun p => (arg &&& 0xFFFF).toUInt16 = (m.blinkArray p).location with
    | none => exact ⟨_, rfl, rfl, ps, h⟩
    | some q =>
      refine ⟨_, rfl, rfl, ps, ?_⟩
      let b := (m.blinkArray p).toBlinker.sync (m.blinkArray q).toBlinker
      have hloc : b.location = (m.blinkArray q).location := rfl
      have hstore := h.store hloc (Function.update m.vmem b.offset b.offChar)
      rw [replaceF_eq h.chain.nodup hq, h.cells] at hstore
      simp only [Option.map_some]
      rw [Blinkers.draw, ← h.vmem]
      exact hstore

end Represents

section Tasklet

variable (p : ℕ) (m : Memory)

lemma blinkArray_taskletTurn :
    (m.taskletTurn p).blinkArray = (m.setCell p ⟨(m.blinkArray p).tick, m.next p⟩).blinkArray := by
  rw [Memory.taskletTurn]
  split
  · rfl
  · rfl

lemma mp1ListHead_taskletTurn : (m.taskletTurn p).mp1ListHead = m.mp1ListHead := by
  rw [Memory.taskletTurn]
  split
  · rfl
  · rfl

/-- A turn keeps all links. -/
lemma next_taskletTurn : (m.taskletTurn p).next = m.next := by
  have hnext : (m.taskletTurn p).next = (m.setCell p ⟨(m.blinkArray p).tick, m.next p⟩).next := by
    funext c
    rw [Memory.next, blinkArray_taskletTurn]
    rfl
  rw [hnext, Memory.next_setCell]
  exact Function.update_eq_self p m.next

lemma vmem_taskletTurn :
    (m.taskletTurn p).vmem = Blinkers.drawTick m.vmem (m.blinkArray p).toBlinker := by
  rw [Memory.taskletTurn, Blinkers.drawTick]
  split
  · rfl
  · rfl

/-- What the turns for some cells do, whatever their order. -/
lemma taskletTurns {ps : List ℕ} (hnd : ps.Nodup) (m : Memory) :
    let m' := ps.foldl (fun m p => m.taskletTurn p) m
    m'.next = m.next ∧ m'.mp1ListHead = m.mp1ListHead ∧
      (∀ c, (m'.blinkArray c).toBlinker =
        if c ∈ ps then (m.blinkArray c).tick else (m.blinkArray c).toBlinker) ∧
      m'.vmem = (m.blinkers ps).foldl Blinkers.drawTick m.vmem := by
  induction ps generalizing m with
  | nil => exact ⟨rfl, rfl, fun c => (if_neg List.not_mem_nil).symm, rfl⟩
  | cons p ps ih =>
    obtain ⟨hp, hnd⟩ := List.nodup_cons.1 hnd
    obtain ⟨hnext, hhead, hcells, hvmem⟩ := ih hnd (m.taskletTurn p)
    have hcell {c : ℕ} (hc : c ≠ p) :
        ((m.taskletTurn p).blinkArray c).toBlinker = (m.blinkArray c).toBlinker := by
      rw [blinkArray_taskletTurn, m.setCell_of_ne hc]
    have hrest : (m.taskletTurn p).blinkers ps = m.blinkers ps := by
      refine List.map_congr_left fun c hc => hcell ?_
      rintro rfl
      exact hp hc
    rw [List.foldl_cons]
    refine ⟨?_, ?_, fun c => ?_, ?_⟩
    · rw [hnext, next_taskletTurn]
    · rw [hhead, mp1ListHead_taskletTurn]
    · rw [hcells]
      by_cases hc : c = p
      · subst hc
        rw [if_neg hp, if_pos List.mem_cons_self, blinkArray_taskletTurn, Memory.setCell_self]
      · rw [hcell hc]
        refine if_congr ?_ rfl rfl
        rw [List.mem_cons, or_iff_right hc]
    · rw [hvmem, vmem_taskletTurn, hrest]
      rfl

end Tasklet

/-- A tick. -/
lemma Represents.tasklet {m : Memory} {s : Blinkers} {ps : List ℕ} {n : ℕ} (h : Represents m s ps)
    (hn : numCells ≤ n) : ∃ m', m.mp1RtcTasklet n = some m' ∧ Represents m' s.tick ps := by
  obtain ⟨hnext, hhead, hcells, hvmem⟩ := taskletTurns h.chain.nodup m
  refine ⟨_, h.chain.forEach_eq next_taskletTurn (h.length_le.trans hn), ?_⟩
  have hloc (c : ℕ) : (((ps.foldl (fun m p => m.taskletTurn p) m).blinkArray c).location)
      = (m.blinkArray c).location := by
    rw [hcells]
    split
    · rw [Blinker.tick]
      dsimp only
      split
      · rfl
      · rfl
    · rfl
  refine ⟨?_, ?_, h.bound, fun c hc => ?_, fun c hc hin => ?_, ?_⟩
  · rw [hnext, hhead]
    exact h.chain
  · rw [Blinkers.tick, ← h.cells, Memory.blinkers, Memory.blinkers, List.map_map]
    refine List.map_congr_left fun c hc => ?_
    rw [hcells, if_pos hc]
    rfl
  · rw [hloc]
    exact h.used c hc
  · rw [hloc]
    exact h.free c hc hin
  · rw [hvmem, h.cells, h.vmem]
    rfl

/-! ### Runs -/

/-- A reply with its record changed by a function. -/
def Reply.map {α β : Type} (f : α → β) (r : Reply α) : Reply β := ⟨r.ret, r.copy.map f⟩

/-- No character is put into the corner of the screen, whose location means a free cell. -/
def Command.OffCorner : Command → Prop
  | .add user => user.location ≠ 0
  | _ => True

/-- A command ends, with the reply and the effect it has on the list. -/
lemma Represents.command {m : Memory} {s : Blinkers} {ps : List ℕ} {n : ℕ} (h : Represents m s ps)
    (hn : numCells ≤ n) {c : Command} (hc : c.OffCorner) :
    ∃ r m' ps', Fish.command n c m = some (r, m') ∧
      r.map Mp1BlinkStruct.toBlinker = (s.command c).1 ∧ Represents m' (s.command c).2 ps' := by
  cases c with
  | add user =>
    obtain ⟨hret, ps', h'⟩ := h.add hc
    exact ⟨_, _, ps', rfl, congrArg (Reply.mk · none) hret, h'⟩
  | remove arg =>
    obtain ⟨r, hr, hret, ps', h'⟩ := h.remove hn arg
    exact ⟨⟨r.1, none⟩, r.2, ps', congrArg (Option.map _) hr, congrArg (Reply.mk · none) hret, h'⟩
  | find location =>
    obtain ⟨r, hr, hret, hcopy⟩ := h.find hn location
    exact ⟨⟨r.1, r.2⟩, m, ps, congrArg (Option.map _) hr, congrArg₂ Reply.mk hret hcopy, h⟩
  | sync arg =>
    obtain ⟨r, hr, hret, ps', h'⟩ := h.sync hn arg
    exact ⟨⟨r.1, none⟩, r.2, ps', congrArg (Option.map _) hr, congrArg (Reply.mk · none) hret, h'⟩
  | tasklet =>
    obtain ⟨m', hm', h'⟩ := h.tasklet hn
    exact ⟨⟨0, none⟩, m', ps, congrArg (Option.map _) hm', rfl, h'⟩

lemma Represents.commands {m : Memory} {s : Blinkers} {ps : List ℕ} {n : ℕ}
    (h : Represents m s ps) (hn : numCells ≤ n) {cs : List Command} (hcs : ∀ c ∈ cs, c.OffCorner) :
    ∃ rs m' ps', Fish.commands n cs m = some (rs, m') ∧
      rs.map (Reply.map Mp1BlinkStruct.toBlinker) = (s.commands cs).1 ∧
      Represents m' (s.commands cs).2 ps' := by
  induction cs generalizing m s ps with
  | nil => exact ⟨[], m, ps, rfl, rfl, h⟩
  | cons c cs ih =>
    obtain ⟨r, m₁, ps₁, hr, hret, h₁⟩ := h.command hn (hcs c List.mem_cons_self)
    obtain ⟨rs, m₂, ps₂, hrs, hrets, h₂⟩ :=
      ih h₁ fun c' hc' => hcs c' (List.mem_cons_of_mem c hc')
    refine ⟨r :: rs, m₂, ps₂, ?_, congrArg₂ List.cons hret hrets, h₂⟩
    rw [Fish.commands, hr]
    simp only [Option.bind_eq_bind, Option.bind_some, hrs]

/-- **The array is a list of characters.**  Every sequence of commands that puts no character into
the corner of the screen ends, and has the replies and draws the characters of the list. -/
theorem blinkers_refined (vmem : ℕ → UInt8) (cs : List Command) (hcs : ∀ c ∈ cs, c.OffCorner)
    (n : ℕ) (hn : numCells ≤ n) :
    ∃ rs m ps, commands n cs (cleared vmem) = some (rs, m) ∧
      rs.map (Reply.map Mp1BlinkStruct.toBlinker) = (Blinkers.commands cs ⟨[], vmem⟩).1 ∧
      Represents m (Blinkers.commands cs ⟨[], vmem⟩).2 ps :=
  (represents_cleared vmem).commands hn hcs

/-- The record of `main`: an `I` for seven ticks, an `M` for six. -/
def mainRecord : Mp1BlinkStruct := ⟨⟨6 * 80 + 60, 0x49, 0x4D, 7, 6, 0, 0⟩, none⟩

/-- The character of `main`, added, ticked and removed. -/
theorem blinkers_refined_main : ∃ rs m ps,
    commands numCells [.add mainRecord, .tasklet, .remove 540] (cleared fun _ => 0x20) =
      some (rs, m) ∧ rs.map (Reply.map Mp1BlinkStruct.toBlinker) =
        (Blinkers.commands [.add mainRecord, .tasklet, .remove 540] ⟨[], fun _ => 0x20⟩).1 ∧
      Represents m
        (Blinkers.commands [.add mainRecord, .tasklet, .remove 540] ⟨[], fun _ => 0x20⟩).2 ps :=
  blinkers_refined _ _ (by simp [Command.OffCorner, mainRecord]) numCells le_rfl

end Fish

end WnajOS
