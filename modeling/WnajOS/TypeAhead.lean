import WnajOS.LineEditing

/-!
# Typing ahead

The abstract terminal keeps the lines that were entered until they are read, and a line that is
typed meanwhile beside them.  `Lined` runs it next to the code.  The array of the code has room
for one of the two only, and the keyboard handler does not look whether a line waits in it: the
code refines the abstract terminal if and as long as no key for the line comes while one waits.
-/

namespace WnajOS

open LineDiscipline

/-- The kernel and the lines of the abstract terminals.  No code reads `lines`. -/
structure Lined where
  board : Board
  lines : ℕ → Lines UInt8

/-- The abstract lines after an event: a key goes to the visible terminal, a read takes the oldest
line of the scheduled one. -/
def BoardEvent.linesAfter (a : BoardEvent) (b : Board) (lines : ℕ → Lines UInt8) :
    ℕ → Lines UInt8 :=
  match a.lineKey? b, (a.event b).lineRead? b.kernel with
  | some k, _ =>
    Function.update lines b.kernel.visibleTerm (lineDiscipline.key (lines b.kernel.visibleTerm) k)
  | none, some (_, nbytes) =>
    match (lines b.kernel.scheduledTerm).read nbytes.toInt.toNat with
    | some (_, s) => Function.update lines b.kernel.scheduledTerm s
    | none => lines
  | none, none => lines

/-- One step of the code and of the abstract terminals. -/
def Lined.step (img : Image) (a : BoardEvent) (L : Lined) : Option Lined :=
  (L.board.step img a).map (⟨·, a.linesAfter L.board L.lines⟩)

/-- The kernel at boot. -/
def Lined.boot (l : Layout) (pg : Paging) (vram : ℕ → ℕ → UInt8) (mem : ℤ → Pcb) : Lined :=
  ⟨Board.boot l pg vram mem, fun _ => Lines.empty⟩

/-- No key for the line comes while one that was entered waits to be read. -/
def InTime (a : BoardEvent) (L : Lined) : Prop :=
  (a.lineKey? L.board).isSome → L.board.line.eol = false

instance (a : BoardEvent) (L : Lined) : Decidable (InTime a L) :=
  inferInstanceAs (Decidable (_ → _))

/-! ### Lines and reads -/

/-- The code represents the abstract lines of every terminal. -/
def Lined.Represented (L : Lined) : Prop := ∀ t, (L.board.input t).Represents (L.lines t)

/-- A read of a terminal with the lines `s`, which leaves the lines `s'`, returns the oldest line
that was entered or the part of it that was asked for.  Its newline is the last byte, and there
unless the line was cut off. -/
def ReadsLine (inp : Input) (buf : Buf) (nbytes : Int32) (s s' : Lines UInt8) : Prop :=
  ∃ line rest got out, s.entered = line :: rest ∧ s' = ⟨rest, s.current⟩ ∧
    got = line.take nbytes.toInt.toNat ∧
    ((got = line ∧ ∃ body, 10 ∉ body ∧ line = body ++ [10]) ∨
      (nbytes.toInt.toNat < line.length ∧ 10 ∉ got)) ∧
    terminalRead inp buf nbytes = (Int32.ofNat got.length, out, inp.reset) ∧ Holds out got

/-- Every read of an event returns one line. -/
def ReadsLines (a : BoardEvent) (L L' : Lined) : Prop :=
  let t := L.board.kernel.scheduledTerm
  ∀ buf nbytes, (a.event L.board).lineRead? L.board.kernel = some (buf, nbytes) →
    ReadsLine (L.board.input t) buf nbytes (L.lines t) (L'.lines t)

/-! ### The refinement -/

lemma BoardEvent.lineKey?_ne_newline (a : BoardEvent) (b : Board) :
    a.lineKey? b ≠ some (.insert 10) := by
  rw [lineKey?]
  split
  · exact lineKey_ne_newline _ _
  · simp

section LinesAfter

variable {a : BoardEvent} {b : Board} {lines : ℕ → Lines UInt8}

lemma linesAfter_key {k : Key UInt8} (ha : a.lineKey? b = some k) : a.linesAfter b lines =
    Function.update lines b.kernel.visibleTerm
      (lineDiscipline.key (lines b.kernel.visibleTerm) k) := by
  rw [BoardEvent.linesAfter, ha]

lemma linesAfter_read {buf : Buf} {nbytes : Int32} {l : List UInt8} {s : Lines UInt8}
    (ha : a.lineKey? b = none) (hr : (a.event b).lineRead? b.kernel = some (buf, nbytes))
    (hread : (lines b.kernel.scheduledTerm).read nbytes.toInt.toNat = some (l, s)) :
    a.linesAfter b lines = Function.update lines b.kernel.scheduledTerm s := by
  rw [BoardEvent.linesAfter, ha, hr]
  dsimp only
  rw [hread]

lemma linesAfter_other (ha : a.lineKey? b = none)
    (hr : (a.event b).lineRead? b.kernel = none) : a.linesAfter b lines = lines := by
  rw [BoardEvent.linesAfter, ha, hr]

end LinesAfter

/-- A line that waits and a key behind it are not represented together. -/
lemma not_represents_key {inp : Input} {s : Lines UInt8} {k : Key UInt8}
    (hrep : inp.Represents s) (hwf : lineDiscipline.WellFormed s) (heol : inp.eol = true) :
    ¬(inp.key k).Represents (lineDiscipline.key s k) := by
  intro hrep'
  cases hrep with
  | editing heol' => exact absurd (heol.symm.trans heol') (by decide)
  | @waiting l _ hl =>
    cases k with
    | enter => cases hrep'
    | insert chr => cases hrep'
    | tab => cases hrep'
    | erase =>
      -- Backspace takes the newline away
      have hlen : (inp.key .erase).idx.toNat = l.length := by
        generalize inp.key .erase = inp' at hrep'
        cases hrep' with
        | waiting _ hl' => exact hl'.length
      obtain ⟨body, -, rfl⟩ := hwf.entered l (List.mem_singleton_self _)
      rw [Input.key, Input.erase_idx, hl.length, List.length_append, List.length_singleton] at hlen
      omega

/-- The event is a Tab whose echo faults; nothing happens behind it. -/
def TabFaults (a : BoardEvent) (L L' : Lined) : Prop :=
  a.lineKey? L.board = some .tab ∧ L'.board.Stuck

/-- The code represents the abstract lines, and these are well formed. -/
structure Refines (L : Lined) : Prop where
  represented : L.Represented
  wellFormed : ∀ t, lineDiscipline.WellFormed (L.lines t)

namespace Refines

variable {img : Image} {a : BoardEvent} {L L' : Lined}

/-- A key for a line. -/
lemma key (h : Refines L) {b' : Board} {k : Key UInt8} (ha : a.lineKey? L.board = some k)
    (hline : ∀ t, b'.input t =
      if t = L.board.kernel.visibleTerm then L.board.line.key k else L.board.input t) :
    (Lined.Represented ⟨b', a.linesAfter L.board L.lines⟩ ↔ InTime a L) ∧
      ∀ t, lineDiscipline.WellFormed (a.linesAfter L.board L.lines t) := by
  have hwf := h.wellFormed L.board.kernel.visibleTerm
  have hrep := h.represented L.board.kernel.visibleTerm
  rw [linesAfter_key ha]
  constructor
  · have hiff : Lined.Represented ⟨b', Function.update L.lines L.board.kernel.visibleTerm
        (lineDiscipline.key (L.lines L.board.kernel.visibleTerm) k)⟩ ↔
        (L.board.line.key k).Represents
          (lineDiscipline.key (L.lines L.board.kernel.visibleTerm) k) := by
      constructor
      · intro hall
        have hv := hall L.board.kernel.visibleTerm
        dsimp only at hv
        rwa [hline, if_pos rfl, Function.update_self] at hv
      · intro hv t
        dsimp only
        rw [hline]
        by_cases ht : t = L.board.kernel.visibleTerm
        · rw [if_pos ht, ht, Function.update_self]
          exact hv
        · rw [if_neg ht, Function.update_of_ne ht]
          exact h.represented t
    rw [hiff, InTime, ha]
    constructor
    · intro hkey _
      by_contra heol
      exact not_represents_key hrep hwf (Bool.not_eq_false _ ▸ heol) hkey
    · intro htime
      exact hrep.key hwf.room (htime rfl) k
  · intro t
    by_cases ht : t = L.board.kernel.visibleTerm
    · rw [ht, Function.update_self]
      refine hwf.key (by decide) ?_
      rintro rfl
      exact a.lineKey?_ne_newline L.board ha
    · rw [Function.update_of_ne ht]
      exact h.wellFormed t

/-- A read. -/
lemma read (h : Refines L) {b' : Board} {buf : Buf} {nbytes : Int32}
    (ha : a.lineKey? L.board = none)
    (hr : (a.event L.board).lineRead? L.board.kernel = some (buf, nbytes)) (hn : 0 ≤ nbytes.toInt)
    (heol : (L.board.input L.board.kernel.scheduledTerm).eol = true)
    (hline : ∀ t, b'.input t =
      if t = L.board.kernel.scheduledTerm then (L.board.input t).reset else L.board.input t) :
    Refines ⟨b', a.linesAfter L.board L.lines⟩ ∧
      ReadsLine (L.board.input L.board.kernel.scheduledTerm) buf nbytes
        (L.lines L.board.kernel.scheduledTerm)
        (a.linesAfter L.board L.lines L.board.kernel.scheduledTerm) := by
  have hwf := h.wellFormed L.board.kernel.scheduledTerm
  obtain ⟨got, s', hread, hrep', hres, hout⟩ :=
    (h.represented L.board.kernel.scheduledTerm).read heol buf hn
  have hwf' := hwf.read hread
  rw [linesAfter_read ha hr hread]
  refine ⟨⟨fun t => ?_, fun t => ?_⟩, ?_⟩
  · dsimp only
    rw [hline]
    by_cases ht : t = L.board.kernel.scheduledTerm
    · rw [if_pos ht, ht, Function.update_self]
      exact hrep'
    · rw [if_neg ht, Function.update_of_ne ht]
      exact h.represented t
  · dsimp only
    by_cases ht : t = L.board.kernel.scheduledTerm
    · rw [ht, Function.update_self]
      exact hwf'.2
    · rw [Function.update_of_ne ht]
      exact h.wellFormed t
  · rw [Function.update_self]
    rw [Lines.read] at hread
    split at hread
    · exact absurd hread (by simp)
    · rename_i line rest hs
      obtain ⟨hgot, rfl⟩ := Prod.mk.inj (Option.some.inj hread)
      have hisLine := hwf.entered line (hs ▸ List.mem_cons_self ..)
      refine ⟨line, rest, got, _, hs, rfl, hgot.symm, ?_, ?_, hout⟩
      · rcases hisLine.take nbytes.toInt.toNat with ⟨-, heq⟩ | hcut
        · exact Or.inl ⟨hgot.symm.trans heq, hisLine⟩
        · rw [← hgot]
          exact Or.inr hcut
      · rw [hres]

/-- The index of a line that is represented is inside the array. -/
lemma idx_lt (h : Refines L) (t : ℕ) : (L.board.input t).idx.toNat < inputBufferSize := by
  have hrep := h.represented t
  have hwf := h.wellFormed t
  generalize L.lines t = s at hrep hwf
  cases hrep with
  | editing heol hl => exact hl.length.trans_lt (hwf.room.trans_lt (by decide))
  | waiting heol hl =>
    exact hl.length.trans_lt ((hwf.short _ (List.mem_singleton_self _)).trans_lt (by decide))

/-- A key whose echo faults has changed the line as always, but for Tab. -/
lemma cut (h : Refines L) {b' : Board} {k : Key UInt8} {inp : Input} (hk : k ≠ .tab)
    (hfault : L.board.kernel.toDisplay.keyStroke k = .error b'.kernel.toDisplay)
    (hcut : L.board.line.Cut k inp) : inp = L.board.line.key k := by
  cases hcut with
  | insert chr hlt => exact (if_pos hlt).symm
  | tab hn => exact absurd rfl hk
  | erase => rfl
  | enter =>
    obtain ⟨d, hd⟩ := keyStroke_enter (d := L.board.kernel.toDisplay) (h.idx_lt _)
    exact absurd (hd.symm.trans hfault) (by simp)

/-- **One step.**  Where the echo of a Tab faults, the machine is stuck with a part of its blanks. -/
theorem step (h : Refines L) (hs : L.step img a = some L') :
    (TabFaults a L L' ∨ (Refines L' ↔ InTime a L)) ∧ ReadsLines a L L' := by
  obtain ⟨b', hb, rfl⟩ := Option.map_eq_some_iff.1 hs
  -- a key reads no line
  have hreads : ∀ k, a.lineKey? L.board = some k →
      ReadsLines a L ⟨b', a.linesAfter L.board L.lines⟩ := by
    intro k ha buf nbytes hr
    rw [BoardEvent.lineKey?] at ha
    split at ha
    · rename_i he
      rw [he] at hr
      exact absurd hr (by simp [Event.lineRead?, Event.call?])
    · exact absurd ha (by simp)
  have hkeyed : ∀ k, a.lineKey? L.board = some k → (∀ t, b'.input t =
      if t = L.board.kernel.visibleTerm then L.board.line.key k else L.board.input t) →
      (Refines ⟨b', a.linesAfter L.board L.lines⟩ ↔ InTime a L) := by
    intro k ha hline
    obtain ⟨hiff, hwf⟩ := h.key ha hline
    rw [← hiff]
    exact ⟨Refines.represented, fun hrep => ⟨hrep, hwf⟩⟩
  cases Board.step_lines hb with
  | other ha hr hline =>
    rw [linesAfter_other ha hr]
    constructor
    · rw [InTime, ha]
      refine Or.inr (iff_of_true ⟨fun t => ?_, h.wellFormed⟩ (fun hsome => absurd hsome (by simp)))
      dsimp only
      rw [hline]
      exact h.represented t
    · intro buf nbytes hr'
      exact absurd (hr.symm.trans hr') (by simp)
  | @cut k inp ha hstuck hfault hcut hline =>
    by_cases hk : k = .tab
    · exact ⟨Or.inl ⟨hk ▸ ha, hstuck⟩, hreads k ha⟩
    · rw [h.cut hk hfault hcut] at hline
      exact ⟨Or.inr (hkeyed k ha hline), hreads k ha⟩
  | @done k ha hline => exact ⟨Or.inr (hkeyed k ha hline), hreads k ha⟩
  | read ha hr hn heol hline =>
    obtain ⟨hrefines, hread⟩ := h.read ha hr hn heol hline
    constructor
    · rw [InTime, ha]
      exact Or.inr (iff_of_true hrefines (fun hsome => absurd hsome (by simp)))
    · intro buf' nbytes' hr'
      obtain ⟨rfl, rfl⟩ := Prod.mk.inj (Option.some.inj (hr.symm.trans hr'))
      exact hread

end Refines

/-- A stuck machine stays so, and reads nothing. -/
lemma Lined.step_stuck {img : Image} {a : BoardEvent} {L L' : Lined} (h : L.board.Stuck)
    (hs : L.step img a = some L') : L'.board.Stuck ∧ ReadsLines a L L' := by
  obtain ⟨b', hb, rfl⟩ := Option.map_eq_some_iff.1 hs
  obtain ⟨he, hstuck⟩ := h.step hb
  refine ⟨hstuck, fun buf nbytes hr => ?_⟩
  rw [he] at hr
  exact absurd hr (by simp [Event.lineRead?, Event.call?])

lemma refines_boot (l : Layout) (pg : Paging) (vram : ℕ → ℕ → UInt8) (mem : ℤ → Pcb) :
    Refines (Lined.boot l pg vram mem) := by
  refine ⟨fun _ => ?_, fun _ => Discipline.wellFormed_empty⟩
  exact .editing rfl ⟨rfl, Holds.nil _⟩

/-- **Typing ahead.**  In every run from boot in which no key for a line comes while one that was
entered waits to be read, the code refines the abstract terminals, unless an echo has faulted and
nothing happens any more; and every read returns one line that was entered, the oldest, or the part
of it that was asked for.  And from every state of such a run a step keeps the refinement, unless
the echo of a Tab faults, if and only if it meets the condition. -/
theorem reads_entered_lines (img : Image) (l : Layout) (pg : Paging) (vram : ℕ → ℕ → UInt8)
    (mem : ℤ → Pcb) (L : Lined)
    (h : Runs.Reach (Lined.step img) InTime (Lined.boot l pg vram mem) L) :
    (L.board.Stuck ∨ Refines L) ∧ ∀ a L', L.step img a = some L' →
      ReadsLines a L L' ∧ (Refines L → TabFaults a L L' ∨ (Refines L' ↔ InTime a L)) := by
  have hrefines : L.board.Stuck ∨ Refines L := by
    refine h.invariant (P := fun L => L.board.Stuck ∨ Refines L)
      (Or.inr (refines_boot l pg vram mem)) ?_
    rintro a L₁ L₂ (hstuck | hL) hok hs
    · exact Or.inl (Lined.step_stuck hstuck hs).1
    · exact (hL.step hs).1.imp And.right fun hiff => hiff.2 hok
  refine ⟨hrefines, fun a L' hs => ?_⟩
  refine ⟨?_, fun hL => (hL.step hs).1⟩
  rcases hrefines with hstuck | hL
  · exact (Lined.step_stuck hstuck hs).2
  · exact (hL.step hs).2

/-- The kernel at boot on zero memory. -/
def sampleLined : Lined := Lined.boot sampleLayout samplePaging (fun _ _ => 0) samplePcbs

/-- The first shell, whose terminal is visible, waits for a line. -/
def shellWaits : List BoardEvent :=
  (bootShells ++ ([.tick, .begin (.read 0 (some noBuf) 128)] : List Event)).map .other

/-- It gets `a`, and `b` is entered when it waits again. -/
def shellReadsTwice : List BoardEvent :=
  shellWaits ++ ([.scancode 0x1E, .scancode 0x1C, .other .finish,
    .other (.begin (.read 0 (some noBuf) 128)), .scancode 0x30, .scancode 0x1C] : List BoardEvent)

/-- The second read returns the second line. -/
theorem reads_entered_lines_twice : ∃ L L' buf,
    Runs.run (Lined.step sampleImage) shellReadsTwice sampleLined = some L ∧
    (L.lines 0).entered = [[0x62, 10]] ∧ L.step sampleImage (.other .finish) = some L' ∧
    ReadsLine (L.board.input 0) buf 128 (L.lines 0) (L'.lines 0) := by
  have hrun : (Runs.run (Runs.guarded (Lined.step sampleImage) InTime) shellReadsTwice
      sampleLined).any (fun L => (L.lines 0).entered = [[0x62, 10]] ∧
        (L.step sampleImage (.other .finish)).isSome ∧ L.board.kernel.scheduledTerm = 0 ∧
        (Event.finish.lineRead? L.board.kernel).map Prod.snd = some 128) = true := by
    decide +kernel
  obtain ⟨L, hL, hstate⟩ := (Option.any_eq_true _ _).1 hrun
  obtain ⟨hlines, hnext, hsched, hsize⟩ := of_decide_eq_true hstate
  obtain ⟨L', hL'⟩ := Option.isSome_iff_exists.1 hnext
  obtain ⟨⟨buf, nbytes⟩, hread, rfl⟩ := Option.map_eq_some_iff.1 hsize
  obtain ⟨hreads, -⟩ := (reads_entered_lines sampleImage sampleLayout samplePaging _ _ L
    (Runs.reach_of_guarded hL)).2 (.other .finish) L' hL'
  have hline := hreads buf 128 hread
  rw [hsched] at hline
  exact ⟨L, L', buf, Runs.run_of_guarded hL, hlines, hL', hline⟩

/-- `b` is typed behind `a` and Enter, before the shell goes on. -/
def typedAhead : List BoardEvent :=
  shellWaits ++ ([.scancode 0x1E, .scancode 0x1C, .scancode 0x30] : List BoardEvent)

/-- The read returns all three bytes, with the newline in the middle. -/
theorem read_merges_lines : ∃ L L' buf,
    Runs.Reach (Lined.step sampleImage) (fun _ _ => True) sampleLined L ∧
    L.step sampleImage (.other .finish) = some L' ∧
    Event.finish.lineRead? L.board.kernel = some (buf, 128) ∧
    (L.lines 0).entered = [[0x61, 10]] ∧ (L.lines 0).current = [0x62] ∧
    (terminalRead (L.board.input 0) buf 128).1 = 3 ∧ (L'.board.input 0).idx = 0 ∧
    ¬ReadsLines (.other .finish) L L' := by
  have hrun : (Runs.run (Lined.step sampleImage) typedAhead sampleLined).any (fun L =>
      L.board.kernel.scheduledTerm = 0 ∧ (L.lines 0).entered = [[0x61, 10]] ∧
      (L.lines 0).current = [0x62] ∧ readLen (L.board.input 0) 128 = 3 ∧
      (Event.finish.lineRead? L.board.kernel).map Prod.snd = some 128 ∧
      (L.step sampleImage (.other .finish)).any (fun L' => (L'.board.input 0).idx = 0)) = true := by
    decide +kernel
  obtain ⟨L, hL, hstate⟩ := (Option.any_eq_true _ _).1 hrun
  obtain ⟨hsched, hentered, hcurrent, hlen, hsize, hnext⟩ := of_decide_eq_true hstate
  obtain ⟨L', hL', hidx⟩ := (Option.any_eq_true _ _).1 hnext
  obtain ⟨⟨buf, nbytes⟩, hread, rfl⟩ := Option.map_eq_some_iff.1 hsize
  have hvalue : (terminalRead (L.board.input 0) buf 128).1 = 3 := congrArg Int32.ofNat hlen
  refine ⟨L, L', buf, Runs.reach_of_run (fun _ _ => trivial) hL, hL', hread, hentered, hcurrent,
    hvalue, of_decide_eq_true hidx, fun hreads => ?_⟩
  obtain ⟨line, rest, got, out, hs, -, hgot, -, hres, -⟩ := hreads buf 128 hread
  rw [hsched, hentered] at hs
  obtain ⟨rfl, -⟩ := List.cons.inj hs
  rw [hsched] at hres
  rw [hres, hgot] at hvalue
  dsimp only at hvalue
  exact absurd hvalue (by decide)

end WnajOS
