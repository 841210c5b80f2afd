import WnajOS.Library.Runs
import WnajOS.Keyboard
import WnajOS.Kernel

/-!
# The output of the terminals, step by step

The three processes that run on the terminals, seen from the display: each runs its program or
is at some point of the loop of `terminal_write`.  Interrupts come wherever the code has them
enabled: `terminal_write` disables them, but every `putc` enables them again, so that from the
second byte on a tick of the PIT, the echo of a key or a switch of the terminal can come between
any two of the steps below, also between two bytes that `pan` moves.  One step reads or writes one
shared variable or a byte of video memory, or is a critical section of the code; the only long ones
are the echo of a byte, which `screen_putc` draws with interrupts disabled, and `term_switch` up to
the `sti` in it.  The keyboard sends nothing more until its handler is done.

The loop without interruption is `terminal_write` (`run_write`).
-/

namespace WnajOS

namespace Display

/-- The physical page of the screen of a terminal. -/
def screenPage (d : Display) (t : ℕ) : ℕ := if t = d.visibleTerm then 0xB8 else 0xB9 + t

/-- The new position in `cursor_increment` and `cursor_increment_line`. -/
def nextCursor (c : UInt8) (p : Cursor) : Cursor :=
  if c = 10 ∨ c = 13 then ⟨(p.row + 1) % 256 % termRows, 0⟩
  else if (p.col + 1) % termCols = 0 then ⟨(p.row + 1) % termRows, 0⟩
  else ⟨p.row, (p.col + 1) % termCols⟩

/-- `cursor_increment` and `cursor_increment_line` up to the call of `pan`. -/
def advance (c : UInt8) (t : ℕ) (d : Display) : Display :=
  d.setCursor t (nextCursor c (d.terms t).cursor)

/-- The part of `pan` that moves the screen. -/
def scroll (rows t : ℕ) (d : Display) : Display :=
  let mem := d.frame (if t = d.visibleTerm then physVidmem else termMem t)
  { d with vram := Function.update d.vram mem (panPage rows (d.vram mem)) }

/-- The page in which `pan` moves the screen of a terminal. -/
def panMem (t : ℕ) (d : Display) : ℕ := if t = d.visibleTerm then physVidmem else termMem t

/-- The bytes of a row. -/
def rowBytes : ℕ := termCols * 2

/-- The bytes that `memmove` moves in `pan`. -/
def scrollBytes : ℕ := (termRows - panRows) * rowBytes

/-- `memmove` moves the byte `i`. -/
def moveByte (mem i : ℕ) (d : Display) : Display :=
  let page := d.vram (d.frame mem)
  let page := Function.update page i (page (i + panRows * rowBytes))
  { d with vram := Function.update d.vram (d.frame mem) page }

/-- `memcpy` blanks the byte `i` of the last row.  (It copies four bytes at a time.) -/
def blankByte (mem i : ℕ) (d : Display) : Display :=
  let page := d.vram (d.frame mem)
  let page := Function.update page ((termRows - 1) * rowBytes + i) (whiteout i)
  { d with vram := Function.update d.vram (d.frame mem) page }

/-- The rest of `pan`. -/
def home (rows t : ℕ) (d : Display) : Display :=
  (d.screenSeek ⟨termRows - rows, 0⟩).setCursor t ⟨termRows - rows, 0⟩

lemma pan_eq (rows t : ℕ) (d : Display) : pan rows t d = home rows t (scroll rows t d) := rfl

/-- The two steps of the cursor are `advance`, and `pan` where it was moved beyond the last
row. -/
lemma cursorAfter_eq (c : UInt8) (p : Cursor) (t : ℕ) (d : Display) : d.cursorAfter c p t =
    if c = 8 then d.screenSeek p
    else if ((d.advance c t).terms t).cursor = ⟨0, 0⟩ then pan panRows t (d.advance c t)
    else d.advance c t := by
  have hcur : ((d.advance c t).terms t).cursor = nextCursor c (d.terms t).cursor := by
    simp only [advance, setCursor, Function.update_self]
  rw [cursorAfter, hcur]
  by_cases h8 : c = 8
  · rw [if_pos h8, if_pos h8]
  rw [if_neg h8, if_neg h8, advance, nextCursor]
  by_cases hline : c = 10 ∨ c = 13
  · rw [if_pos hline, if_pos hline, cursorIncrementLine]
    simp only [Cursor.mk.injEq, and_true]
  · rw [if_neg hline, if_neg hline, cursorIncrement]
    dsimp only
    by_cases hcol : ((d.terms t).cursor.col + 1) % termCols = 0
    · rw [if_pos hcol, if_pos hcol, hcol]
      simp only [Cursor.mk.injEq, and_true]
    · rw [if_neg hcol, if_neg hcol]
      simp only [Cursor.mk.injEq, hcol, and_false, if_false]

/-! ### A page that is being moved -/

/-- A page of which `memmove` has moved the first `n` bytes. -/
def movedPage (n : ℕ) (page : ℕ → UInt8) : ℕ → UInt8 :=
  fun i => if i < n then page (i + panRows * rowBytes) else page i

/-- A page of which `memcpy` has blanked the first `n` bytes of the last row. -/
def blankedPage (n : ℕ) (page : ℕ → UInt8) : ℕ → UInt8 :=
  fun i => if (termRows - 1) * rowBytes ≤ i ∧ i < (termRows - 1) * rowBytes + n then whiteout i
    else page i

lemma movedPage_zero (page : ℕ → UInt8) : movedPage 0 page = page := rfl

/-- No byte is overwritten before it was moved. -/
lemma movedPage_succ (n : ℕ) (page : ℕ → UInt8) : movedPage (n + 1) page =
    Function.update (movedPage n page) n (movedPage n page (n + panRows * rowBytes)) := by
  funext i
  by_cases hi : i = n
  · subst hi
    rw [Function.update_self, movedPage, movedPage, if_pos (Nat.lt_succ_self i), if_neg (by omega)]
  · rw [Function.update_of_ne hi, movedPage, movedPage]
    exact if_congr (by omega) rfl rfl

lemma blankedPage_zero (page : ℕ → UInt8) : blankedPage 0 page = page := by
  funext i
  exact if_neg (by omega)

lemma whiteout_row (i : ℕ) : whiteout ((termRows - 1) * rowBytes + i) = whiteout i := by
  have heven : ((termRows - 1) * rowBytes + i) % 2 = i % 2 := by
    rw [show (termRows - 1) * rowBytes = 3680 from rfl]
    omega
  rw [whiteout, whiteout, heven]

lemma blankedPage_succ (n : ℕ) (page : ℕ → UInt8) : blankedPage (n + 1) page =
    Function.update (blankedPage n page) ((termRows - 1) * rowBytes + n) (whiteout n) := by
  funext i
  by_cases hi : i = (termRows - 1) * rowBytes + n
  · rw [hi, Function.update_self, blankedPage, if_pos ⟨Nat.le_add_right .., by omega⟩, whiteout_row]
  · rw [Function.update_of_ne hi, blankedPage, blankedPage]
    exact if_congr (by omega) rfl rfl

/-- **All bytes moved**, the page is that of `pan`. -/
lemma blankedPage_movedPage (page : ℕ → UInt8) :
    blankedPage rowBytes (movedPage scrollBytes page) = panPage panRows page := by
  funext i
  rw [blankedPage, movedPage, panPage]
  rw [show (termRows - 1) * rowBytes = 3680 from rfl, show rowBytes = 160 from rfl,
    show scrollBytes = 3680 from rfl, show (termRows - panRows) * termCols * 2 = 3680 from rfl,
    show termRows * termCols * 2 = 3840 from rfl, show panRows * termCols * 2 = 160 from rfl,
    show panRows * 160 = 160 from rfl]
  by_cases hmoved : i < 3680
  · rw [if_neg (by omega), if_pos hmoved, if_pos hmoved]
  · rw [if_neg hmoved, if_neg hmoved]
    exact if_congr (by omega) rfl rfl

/-- A display with another page. -/
def setPage (d : Display) (n : ℕ) (page : ℕ → UInt8) : Display :=
  { d with vram := Function.update d.vram n page }

lemma moveByte_setPage (d : Display) (mem i : ℕ) (page : ℕ → UInt8) :
    (d.setPage (d.frame mem) (movedPage i page)).moveByte mem i =
      d.setPage (d.frame mem) (movedPage (i + 1) page) := by
  rw [movedPage_succ]
  simp only [moveByte, setPage, frame, Function.update_self, Function.update_idem]

lemma blankByte_setPage (d : Display) (mem i : ℕ) (page : ℕ → UInt8) :
    (d.setPage (d.frame mem) (blankedPage i page)).blankByte mem i =
      d.setPage (d.frame mem) (blankedPage (i + 1) page) := by
  rw [blankedPage_succ]
  simp only [blankByte, setPage, frame, Function.update_self, Function.update_idem]

/-- A program's store in the page of its screen, at `0x84B8000`. -/
def userPoke (d : Display) (i : ℕ) (b : UInt8) : Except Display Display :=
  let pte := d.paging.userVidmapTable videoMemAddr
  if pte.present then
    .ok { d with vram := Function.update d.vram pte.addr (Function.update (d.vram pte.addr) i b) }
  else .error d

end Display

/-! ### Writers -/

/-- Where a writer stands in the loop of `terminal_write`: the byte `c` it is at, and its
variable `p` as far as it is set. -/
inductive Phase
  /-- the head of the loop -/
  | next
  /-- `p.x` is read next -/
  | begun (c : UInt8)
  /-- `p.y` is read next -/
  | gotX (c : UInt8) (x : ℕ)
  /-- `screen_x` is set next -/
  | gotXY (c : UInt8) (p : Cursor)
  /-- `screen_y` is set next -/
  | setX (c : UInt8) (p : Cursor)
  /-- `putc` is called next -/
  | setXY (c : UInt8) (p : Cursor)
  /-- `putc` has returned -/
  | drawn (c : UInt8) (p : Cursor)
  /-- the cursor was moved beyond the last row, and `pan` reads `visible_term` next -/
  | scroll
  /-- `memmove` moves the byte `i` in the page `mem` next -/
  | move (mem i : ℕ)
  /-- `memcpy` blanks the byte `i` of the last row next -/
  | blank (mem i : ℕ)
  /-- `pan` has moved the screen -/
  | home
deriving DecidableEq

/-- What runs on a terminal. -/
inductive Thread
  /-- no process -/
  | absent
  /-- `pit_handler`, about to execute a shell -/
  | booting
  /-- a program -/
  | user
  /-- `terminal_write`, with the bytes that are left; whether interrupts are enabled -/
  | writing (enabled : Bool) (phase : Phase) (rest : List UInt8)
deriving DecidableEq

/-- Interrupts are enabled. -/
def Thread.Enabled : Thread → Prop
  | .writing enabled _ _ => enabled = true
  | _ => True

instance : DecidablePred Thread.Enabled
  | .writing enabled _ _ => inferInstanceAs (Decidable (enabled = true))
  | .absent => .isTrue trivial
  | .booting => .isTrue trivial
  | .user => .isTrue trivial

/-- The writer of the terminal `t` makes a step. -/
def Phase.run (t : ℕ) (d : Display) (enabled : Bool) (rest : List UInt8) :
    Phase → Except Display (Display × Thread)
  | .next =>
    match rest with
    | [] => .ok (if t = d.visibleTerm then d.updateCursor t else d, .user)
    | c :: cs =>
      if c = 0 then .ok (d, .writing enabled .next cs)
      else .ok (d.cursorBefore c t, .writing enabled (.begun c) cs)
  | .begun c => .ok (d, .writing enabled (.gotX c (d.terms t).cursor.col) rest)
  | .gotX c x => .ok (d, .writing enabled (.gotXY c ⟨(d.terms t).cursor.row, x⟩) rest)
  | .gotXY c p => .ok ({ d with screenX := p.col }, .writing enabled (.setX c p) rest)
  | .setX c p => .ok ({ d with screenY := p.row }, .writing enabled (.setXY c p) rest)
  | .setXY c p =>
    (d.putc (Display.glyph c) attrib).map fun d => (d, .writing true (.drawn c p) rest)
  | .drawn c p =>
    if c = 8 then .ok (d.screenSeek p, .writing enabled .next rest)
    else
      let d := d.advance c t
      .ok (d, .writing enabled (if (d.terms t).cursor = ⟨0, 0⟩ then .scroll else .next) rest)
  | .scroll => .ok (d, .writing enabled (.move (d.panMem t) 0) rest)
  | .move mem i =>
    let phase := if i + 1 < Display.scrollBytes then .move mem (i + 1) else .blank mem 0
    .ok (d.moveByte mem i, .writing enabled phase rest)
  | .blank mem i =>
    let phase := if i + 1 < Display.rowBytes then .blank mem (i + 1) else .home
    .ok (d.blankByte mem i, .writing enabled phase rest)
  | .home => .ok (d.home panRows t, .writing enabled .next rest)

/-! ### The machine -/

/-- The display and what runs on the terminals; after a page fault the exception handler has
taken over.  `switching` is the terminal whose process the keyboard handler has interrupted, while
`term_switch` has yet to store the number of the terminal that it shows. -/
structure Output where
  display : Display
  thread : ℕ → Thread
  fault : Bool
  switching : Option ℕ

/-- What happens next. -/
inductive OutEvent
  /-- a tick of the PIT -/
  | tick
  /-- the keyboard handler echoes a byte -/
  | echo (c : UInt8)
  /-- the keyboard handler switches terminals, up to the `sti` in `term_switch` -/
  | switch (t : ℕ)
  /-- the rest of `term_switch` -/
  | number
  /-- the shell of a terminal is entered -/
  | start
  /-- the program writes to its terminal -/
  | write (cs : List UInt8)
  /-- the program stores in the page of its screen -/
  | store (i : ℕ) (b : UInt8)
  /-- the writer makes a step -/
  | run
deriving DecidableEq

namespace Output

/-- What runs on the scheduled terminal. -/
def current (m : Output) : Thread := m.thread m.display.scheduledTerm

/-- Another thread on the scheduled terminal. -/
def setCurrent (m : Output) (th : Thread) : Output :=
  { m with thread := Function.update m.thread m.display.scheduledTerm th }

/-- The display after an operation, or the page fault. -/
def draw (m : Output) : Except Display Display → Output
  | .ok d => { m with display := d }
  | .error d => { m with display := d, fault := true }

/-- `pit_handler`. -/
def tick (m : Output) : Output :=
  let m := { m with display := m.display.pitAdvance }
  match m.current with
  | .absent => m.setCurrent .booting
  | _ => m

/-- A switch up to the `sti` in `term_switch`. -/
def switchTo (m : Output) (t : ℕ) : Output :=
  if t = m.display.visibleTerm then m
  else { m with display := m.display.showTerm t, switching := some m.display.scheduledTerm }

/-- A step of the writer of the scheduled terminal. -/
def runWriter (m : Output) (enabled : Bool) (phase : Phase) (rest : List UInt8) : Output :=
  match phase.run m.display.scheduledTerm m.display enabled rest with
  | .ok (d, th) => { m.setCurrent th with display := d }
  | .error d => { m with display := d, fault := true }

/-- The keyboard handler has interrupted the scheduled terminal, and has to go on first. -/
def Busy (m : Output) : Prop := m.switching = some m.display.scheduledTerm

instance (m : Output) : Decidable m.Busy := inferInstanceAs (Decidable (_ = _))

/-- What the process of the scheduled terminal does, or the handler that is about to boot it. -/
def stepThread (m : Output) : OutEvent → Option Output
  | .start =>
    match m.current with
    | .booting => some (m.setCurrent .user)
    | _ => none
  | .write cs =>
    match m.current with
    | .user => some { m.setCurrent (.writing false .next cs) with display := m.display.writePatch }
    | _ => none
  | .store i b =>
    match m.current with
    | .user => if i < 4096 then some (m.draw (m.display.userPoke i b)) else none
    | _ => none
  | .run =>
    match m.current with
    | .writing enabled phase rest => some (m.runWriter enabled phase rest)
    | _ => none
  | _ => none

/-- One step of the machine, `none` where the event cannot happen. -/
def step (e : OutEvent) (m : Output) : Option Output :=
  if m.fault then none
  else
    match e with
    | .tick => if m.current.Enabled then some m.tick else none
    | .echo c =>
      if m.current.Enabled ∧ m.switching = none then some (m.draw (m.display.echo c)) else none
    | .switch t =>
      if m.current.Enabled ∧ m.switching = none ∧ t < numTtys then some (m.switchTo t) else none
    | .number =>
      if m.Busy then some { m with display := m.display.drawStatus, switching := none } else none
    | e => if m.Busy then none else m.stepThread e

/-- What one step can do. -/
inductive Effect (m : Output) : OutEvent → Output → Prop
  | tick (h : m.current.Enabled) : Effect m .tick m.tick
  | echo {c : UInt8} (h : m.current.Enabled) (hs : m.switching = none) :
      Effect m (.echo c) (m.draw (m.display.echo c))
  | switch {t : ℕ} (h : m.current.Enabled) (hs : m.switching = none) (ht : t < numTtys) :
      Effect m (.switch t) (m.switchTo t)
  | number (h : m.Busy) :
      Effect m .number { m with display := m.display.drawStatus, switching := none }
  | start (h : m.current = .booting) (hb : ¬m.Busy) : Effect m .start (m.setCurrent .user)
  | write {cs : List UInt8} (h : m.current = .user) (hb : ¬m.Busy) : Effect m (.write cs)
      { m.setCurrent (.writing false .next cs) with display := m.display.writePatch }
  | store {i : ℕ} {b : UInt8} (h : m.current = .user) (hb : ¬m.Busy) (hi : i < 4096) :
      Effect m (.store i b) (m.draw (m.display.userPoke i b))
  | run {enabled : Bool} {phase : Phase} {rest : List UInt8}
      (h : m.current = .writing enabled phase rest) (hb : ¬m.Busy) :
      Effect m .run (m.runWriter enabled phase rest)

lemma stepThread_effect {e : OutEvent} {m m' : Output} (hb : ¬m.Busy)
    (hs : m.stepThread e = some m') : Effect m e m' := by
  rw [stepThread.eq_def] at hs
  cases e with
  | start =>
    cases hcur : m.current with
    | booting =>
      simp only [hcur] at hs
      obtain rfl := Option.some.inj hs
      exact .start hcur hb
    | _ => simp [hcur] at hs
  | write cs =>
    cases hcur : m.current with
    | user =>
      simp only [hcur] at hs
      obtain rfl := Option.some.inj hs
      exact .write hcur hb
    | _ => simp [hcur] at hs
  | store i b =>
    cases hcur : m.current with
    | user =>
      simp only [hcur] at hs
      obtain ⟨hi, heq⟩ := Option.ite_none_right_eq_some.1 hs
      obtain rfl := Option.some.inj heq
      exact .store hcur hb hi
    | _ => simp [hcur] at hs
  | run =>
    cases hcur : m.current with
    | writing enabled phase rest =>
      simp only [hcur] at hs
      obtain rfl := Option.some.inj hs
      exact .run hcur hb
    | _ => simp [hcur] at hs
  | _ => exact absurd hs (by simp)

lemma step_effect {e : OutEvent} {m m' : Output} (hs : m.step e = some m') :
    m.fault = false ∧ Effect m e m' := by
  rw [step.eq_def] at hs
  split at hs
  · exact absurd hs (by simp)
  rename_i hf
  refine ⟨by simpa using hf, ?_⟩
  cases e with
  | tick =>
    obtain ⟨hen, heq⟩ := Option.ite_none_right_eq_some.1 hs
    obtain rfl := Option.some.inj heq
    exact .tick hen
  | echo c =>
    obtain ⟨⟨hen, hnone⟩, heq⟩ := Option.ite_none_right_eq_some.1 hs
    obtain rfl := Option.some.inj heq
    exact .echo hen hnone
  | switch t =>
    obtain ⟨⟨hen, hnone, ht⟩, heq⟩ := Option.ite_none_right_eq_some.1 hs
    obtain rfl := Option.some.inj heq
    exact .switch hen hnone ht
  | number =>
    obtain ⟨hb, heq⟩ := Option.ite_none_right_eq_some.1 hs
    obtain rfl := Option.some.inj heq
    exact .number hb
  | _ =>
    obtain ⟨hb, heq⟩ := Option.ite_none_left_eq_some.1 hs
    exact stepThread_effect hb heq

/-- The machine at boot. -/
def boot (l : Layout) (pg : Paging) (vram : ℕ → ℕ → UInt8) (mem : ℤ → Pcb) : Output :=
  ⟨(entryState l pg vram mem).toDisplay, fun _ => .absent, false, none⟩

/-! ### The loop without interruption -/

lemma step_run {m : Output} {enabled : Bool} {phase : Phase} {rest : List UInt8}
    (hf : m.fault = false) (hb : ¬m.Busy) (hcur : m.current = .writing enabled phase rest) :
    step .run m = some (m.runWriter enabled phase rest) := by
  rw [step.eq_def, if_neg (by simp [hf])]
  dsimp only
  rw [if_neg hb, stepThread, hcur]

lemma step_number {m : Output} (hf : m.fault = false) (hb : m.Busy) :
    step .number m = some { m with display := m.display.drawStatus, switching := none } := by
  rw [step.eq_def, if_neg (by simp [hf])]
  exact if_pos hb

/-- The machine with the display `d` and the thread `th` on its scheduled terminal. -/
def running (threads : ℕ → Thread) (d : Display) (th : Thread) : Output :=
  ⟨d, Function.update threads d.scheduledTerm th, false, none⟩

/-- Steps of the writer, with nothing in between. -/
abbrev Alone : Output → Output → Prop := Runs.Reach step fun e _ => e = .run

section Alone

variable (threads : ℕ → Thread) {d d' : Display} {enabled : Bool} {phase : Phase}
  {rest : List UInt8} {th : Thread} {c : UInt8}

lemma running_current : (running threads d th).current = th := Function.update_self ..

/-- A step of the writer that does not fault. -/
lemma alone_step (hrun : phase.run d.scheduledTerm d enabled rest = .ok (d', th))
    (hd : d'.scheduledTerm = d.scheduledTerm) :
    Alone (running threads d (.writing enabled phase rest)) (running threads d' th) := by
  refine Runs.Reach.single rfl ?_
  rw [step_run rfl (by simp [Busy, running]) (running_current threads), runWriter]
  have hrun' : phase.run (running threads d (.writing enabled phase rest)).display.scheduledTerm
      (running threads d (.writing enabled phase rest)).display enabled rest = .ok (d', th) := hrun
  rw [hrun']
  simp only [setCurrent, running, Function.update_idem, hd]

/-- A step of the writer that faults. -/
lemma alone_fault (hrun : phase.run d.scheduledTerm d enabled rest = .error d') :
    Alone (running threads d (.writing enabled phase rest))
      ⟨d', Function.update threads d.scheduledTerm (.writing enabled phase rest), true, none⟩ := by
  refine Runs.Reach.single rfl ?_
  rw [step_run rfl (by simp [Busy, running]) (running_current threads), runWriter]
  have hrun' : phase.run (running threads d (.writing enabled phase rest)).display.scheduledTerm
      (running threads d (.writing enabled phase rest)).display enabled rest = .error d' := hrun
  rw [hrun']
  rfl

/-- `memmove` moves the bytes that are left. -/
lemma alone_move (mem : ℕ) (page : ℕ → UInt8) {n i : ℕ} (hi : i + (n + 1) = Display.scrollBytes) :
    Alone (running threads (d.setPage (d.frame mem) (Display.movedPage i page))
        (.writing enabled (.move mem i) rest))
      (running threads (d.setPage (d.frame mem) (Display.movedPage Display.scrollBytes page))
        (.writing enabled (.blank mem 0) rest)) := by
  induction n generalizing i with
  | zero =>
    refine alone_step threads ?_ rfl
    rw [Phase.run, Display.moveByte_setPage, if_neg (by omega), ← hi]
  | succ n ih =>
    have hstep : Alone (running threads (d.setPage (d.frame mem) (Display.movedPage i page))
        (.writing enabled (.move mem i) rest))
        (running threads (d.setPage (d.frame mem) (Display.movedPage (i + 1) page))
          (.writing enabled (.move mem (i + 1)) rest)) := by
      refine alone_step threads ?_ rfl
      rw [Phase.run, Display.moveByte_setPage, if_pos (by omega)]
    exact hstep.trans (ih (by omega))

/-- `memcpy` blanks the bytes that are left. -/
lemma alone_blank (mem : ℕ) (page : ℕ → UInt8) {n i : ℕ} (hi : i + (n + 1) = Display.rowBytes) :
    Alone (running threads (d.setPage (d.frame mem) (Display.blankedPage i page))
        (.writing enabled (.blank mem i) rest))
      (running threads (d.setPage (d.frame mem) (Display.blankedPage Display.rowBytes page))
        (.writing enabled .home rest)) := by
  induction n generalizing i with
  | zero =>
    refine alone_step threads ?_ rfl
    rw [Phase.run, Display.blankByte_setPage, if_neg (by omega), ← hi]
  | succ n ih =>
    have hstep : Alone (running threads (d.setPage (d.frame mem) (Display.blankedPage i page))
        (.writing enabled (.blank mem i) rest))
        (running threads (d.setPage (d.frame mem) (Display.blankedPage (i + 1) page))
          (.writing enabled (.blank mem (i + 1)) rest)) := by
      refine alone_step threads ?_ rfl
      rw [Phase.run, Display.blankByte_setPage, if_pos (by omega)]
    exact hstep.trans (ih (by omega))

/-- `pan`. -/
lemma alone_pan (d : Display) (enabled : Bool) (rest : List UInt8) :
    Alone (running threads d (.writing enabled .scroll rest))
      (running threads (Display.pan panRows d.scheduledTerm d) (.writing enabled .next rest)) := by
  let mem := d.panMem d.scheduledTerm
  let page := d.vram (d.frame mem)
  have hself : d.setPage (d.frame mem) page = d := by
    simp only [Display.setPage, page, Function.update_eq_self]
  have hpan : d.setPage (d.frame mem) (Display.panPage panRows page)
      = d.scroll panRows d.scheduledTerm := rfl
  have h₁ : Alone (running threads d (.writing enabled .scroll rest))
      (running threads d (.writing enabled (.move mem 0) rest)) := alone_step threads rfl rfl
  have h₂ : Alone (running threads (d.setPage (d.frame mem) (Display.movedPage 0 page))
        (.writing enabled (.move mem 0) rest))
      (running threads (d.setPage (d.frame mem) (Display.movedPage Display.scrollBytes page))
        (.writing enabled (.blank mem 0) rest)) :=
    alone_move threads mem page (n := Display.scrollBytes - 1) rfl
  have h₃ : Alone (running threads (d.setPage (d.frame mem)
        (Display.blankedPage 0 (Display.movedPage Display.scrollBytes page)))
        (.writing enabled (.blank mem 0) rest))
      (running threads (d.setPage (d.frame mem)
        (Display.blankedPage Display.rowBytes (Display.movedPage Display.scrollBytes page)))
        (.writing enabled .home rest)) :=
    alone_blank threads mem _ (n := Display.rowBytes - 1) rfl
  rw [Display.movedPage_zero, hself] at h₂
  rw [Display.blankedPage_zero, Display.blankedPage_movedPage, hpan] at h₃
  have h₄ : Alone (running threads (d.scroll panRows d.scheduledTerm) (.writing enabled .home rest))
      (running threads (Display.pan panRows d.scheduledTerm d) (.writing enabled .next rest)) :=
    alone_step threads rfl rfl
  exact h₁.trans (h₂.trans (h₃.trans h₄))

/-- The end of an iteration: the cursor is moved and, if need be, the screen. -/
lemma alone_after (d : Display) (enabled : Bool) (rest : List UInt8) (c : UInt8) (p : Cursor) :
    Alone (running threads d (.writing enabled (.drawn c p) rest))
      (running threads (d.cursorAfter c p d.scheduledTerm) (.writing enabled .next rest)) := by
  rw [Display.cursorAfter_eq]
  by_cases h8 : c = 8
  · rw [if_pos h8]
    exact alone_step threads (by rw [Phase.run, if_pos h8]) rfl
  rw [if_neg h8]
  have hadvance : Phase.run d.scheduledTerm d enabled rest (.drawn c p)
      = .ok (d.advance c d.scheduledTerm, .writing enabled
          (if ((d.advance c d.scheduledTerm).terms d.scheduledTerm).cursor = ⟨0, 0⟩ then .scroll
            else .next) rest) := by
    rw [Phase.run, if_neg h8]
  have h₁ := alone_step threads hadvance rfl
  by_cases hwrap : ((d.advance c d.scheduledTerm).terms d.scheduledTerm).cursor = ⟨0, 0⟩
  · rw [if_pos hwrap] at h₁ ⊢
    exact h₁.trans (alone_pan threads (d.advance c d.scheduledTerm) enabled rest)
  · rw [if_neg hwrap] at h₁ ⊢
    exact h₁

/-- The steps of an iteration up to the call of `putc`. -/
lemma alone_seek (d : Display) (enabled : Bool) (rest : List UInt8) (hc : c ≠ 0) :
    Alone (running threads d (.writing enabled .next (c :: rest)))
      (running threads ((d.cursorBefore c d.scheduledTerm).screenSeek
          ((d.cursorBefore c d.scheduledTerm).terms d.scheduledTerm).cursor)
        (.writing enabled
          (.setXY c ((d.cursorBefore c d.scheduledTerm).terms d.scheduledTerm).cursor) rest)) := by
  have hsched := (Display.cursorBefore_drawn c d.scheduledTerm d).scheduledTerm
  have hfetch : Phase.run d.scheduledTerm d enabled (c :: rest) .next
      = .ok (d.cursorBefore c d.scheduledTerm, .writing enabled (.begun c) rest) := by
    simp only [Phase.run, if_neg hc]
  have h₁ := alone_step threads hfetch hsched
  -- from here on the display is any display
  generalize hd₁ : d.cursorBefore c d.scheduledTerm = d₁ at h₁ hsched ⊢
  rw [← hsched]
  have h₂ : Alone (running threads d₁ (.writing enabled (.begun c) rest)) (running threads d₁
      (.writing enabled (.gotX c (d₁.terms d₁.scheduledTerm).cursor.col) rest)) :=
    alone_step threads rfl rfl
  have h₃ : Alone (running threads d₁
      (.writing enabled (.gotX c (d₁.terms d₁.scheduledTerm).cursor.col) rest))
      (running threads d₁ (.writing enabled (.gotXY c (d₁.terms d₁.scheduledTerm).cursor) rest)) :=
    alone_step threads rfl rfl
  generalize (d₁.terms d₁.scheduledTerm).cursor = p at h₂ h₃ ⊢
  have h₄ : Alone (running threads d₁ (.writing enabled (.gotXY c p) rest))
      (running threads { d₁ with screenX := p.col } (.writing enabled (.setX c p) rest)) :=
    alone_step threads rfl rfl
  have h₅ : Alone (running threads { d₁ with screenX := p.col } (.writing enabled (.setX c p) rest))
      (running threads (d₁.screenSeek p) (.writing enabled (.setXY c p) rest)) :=
    alone_step threads rfl rfl
  exact h₁.trans (h₂.trans (h₃.trans (h₄.trans h₅)))

/-- What the steps of the writer alone lead to: the loop goes on after the display `d'`, with
the bytes `rest`, or has come to a page fault. -/
def Comes (threads : ℕ → Thread) (t : ℕ) (m : Output) (rest : List UInt8) :
    Except Display Display → Prop
  | .ok d' => d'.scheduledTerm = t ∧
      ∃ enabled, Alone m (running threads d' (.writing enabled .next rest))
  | .error d' => ∃ th, Alone m ⟨d', Function.update threads t th, true, none⟩

/-- One byte of the loop. -/
lemma alone_char (d : Display) (enabled : Bool) (c : UInt8)
    (rest : List UInt8) : Comes threads d.scheduledTerm
      (running threads d (.writing enabled .next (c :: rest))) rest
      (d.writeChar false d.scheduledTerm c) := by
  rw [Display.writeChar]
  by_cases hc : c = 0
  · rw [if_pos hc]
    have hskip : Phase.run d.scheduledTerm d enabled (c :: rest) .next
        = .ok (d, .writing enabled .next rest) := by
      simp only [Phase.run, if_pos hc]
    exact ⟨rfl, enabled, alone_step threads hskip rfl⟩
  rw [if_neg hc]
  have hseek := alone_seek threads d enabled rest hc
  have hbefore := (Display.cursorBefore_drawn c d.scheduledTerm d).scheduledTerm
  dsimp only
  generalize ((d.cursorBefore c d.scheduledTerm).terms d.scheduledTerm).cursor = p at hseek ⊢
  have hsched : ((d.cursorBefore c d.scheduledTerm).screenSeek p).scheduledTerm
      = d.scheduledTerm := hbefore
  generalize (d.cursorBefore c d.scheduledTerm).screenSeek p = d₁ at hseek hsched ⊢
  have hdraws := Display.putcAt_draws vidmem (Display.glyph c) attrib d₁
  rw [Display.put, if_neg Bool.false_ne_true]
  cases hput : d₁.putc (Display.glyph c) attrib with
  | error d' =>
    have hrun : Phase.run d₁.scheduledTerm d₁ enabled rest (.setXY c p) = .error d' := by
      rw [Phase.run, hput]
      rfl
    refine ⟨.writing enabled (.setXY c p) rest, hseek.trans ?_⟩
    rw [← hsched]
    exact alone_fault threads hrun
  | ok d₂ =>
    have hrun : Phase.run d₁.scheduledTerm d₁ enabled rest (.setXY c p)
        = .ok (d₂, .writing true (.drawn c p) rest) := by
      rw [Phase.run, hput]
      rfl
    rw [show Display.putcAt vidmem (Display.glyph c) attrib d₁ = .ok d₂ from hput] at hdraws
    have hd₂ : d₂.scheduledTerm = d₁.scheduledTerm := hdraws.scheduledTerm
    have hafter := alone_after threads d₂ true rest c p
    rw [hd₂.trans hsched] at hafter
    refine ⟨?_, true, (hseek.trans (alone_step threads hrun hd₂)).trans hafter⟩
    exact (Display.cursorAfter_drawn c p _ d₂).scheduledTerm.trans (hd₂.trans hsched)

/-- The loop. -/
lemma alone_loop (cs : List UInt8) (d : Display) (enabled : Bool) :
    Comes threads d.scheduledTerm (running threads d (.writing enabled .next cs)) []
      (d.writeLoop false d.scheduledTerm cs) := by
  induction cs generalizing d enabled with
  | nil => exact ⟨rfl, enabled, .refl⟩
  | cons c cs ih =>
    have hchar := alone_char threads d enabled c cs
    rw [Display.writeLoop]
    cases hd : d.writeChar false d.scheduledTerm c with
    | error d' =>
      rw [hd] at hchar
      exact hchar
    | ok d' =>
      rw [hd] at hchar
      obtain ⟨hsched, enabled', hreach⟩ := hchar
      have hloop := ih d' enabled'
      rw [hsched] at hloop
      dsimp only [Bind.bind, Except.bind]
      generalize d'.writeLoop false d.scheduledTerm cs = r at hloop ⊢
      cases r with
      | error d'' =>
        obtain ⟨th, hth⟩ := hloop
        exact ⟨th, hreach.trans hth⟩
      | ok d'' =>
        obtain ⟨hsched', enabled'', hend⟩ := hloop
        exact ⟨hsched', enabled'', hreach.trans hend⟩

end Alone

/-- `terminal_write` of a process: the patch, the loop and the cursor of the display. -/
lemma terminalWrite_eq (d : Display) {fd : Int32} (hfd : fd ≠ 100) (buf : Buf) (nbytes : Int32) :
    d.terminalWrite fd (some buf) nbytes =
      (d.writePatch.writeLoop false d.writePatch.scheduledTerm
        ((List.range nbytes.toInt.toNat).map buf)).map fun d' =>
          (nbytes, if d'.scheduledTerm = d'.visibleTerm
            then d'.updateCursor d.writePatch.scheduledTerm else d') := by
  rw [Display.terminalWrite_run, Display.writeTarget]
  simp only [hfd, decide_false, if_false, false_or]

/-- **Without interruption the steps of a writer are `terminal_write`.**  The program of the
scheduled terminal calls it, and when nothing comes in between it is back with the display that
`terminal_write` leaves, or `terminal_write` comes to the page fault. -/
theorem run_write (m : Output) (hf : m.fault = false) (hswitching : m.switching = none)
    (huser : m.current = .user) (fd : Int32) (hfd : fd ≠ 100) (buf : Buf) (nbytes : Int32) :
    ∃ m₁, m.step (.write ((List.range nbytes.toInt.toNat).map buf)) = some m₁ ∧
      match m.display.terminalWrite fd (some buf) nbytes with
      | .ok (_, d) => Alone m₁ { m with display := d }
      | .error d => ∃ th, Alone m₁ { m.setCurrent th with display := d, fault := true } := by
  obtain ⟨d, threads, fault, switching⟩ := m
  obtain rfl : fault = false := hf
  obtain rfl : switching = none := hswitching
  have hsched : d.writePatch.scheduledTerm = d.scheduledTerm :=
    (Display.writePatch_kept d).scheduledTerm
  generalize hcs : (List.range nbytes.toInt.toNat).map buf = cs
  refine ⟨running threads d.writePatch (.writing false .next cs), ?_, ?_⟩
  · rw [step.eq_def, if_neg Bool.false_ne_true]
    refine (if_neg (by simp [Busy])).trans ?_
    simp only [stepThread, huser, running, setCurrent, hsched]
  rw [terminalWrite_eq d hfd, hcs]
  have hloop := alone_loop threads cs d.writePatch false
  cases hd : d.writePatch.writeLoop false d.writePatch.scheduledTerm cs with
  | error d' =>
    rw [hd] at hloop
    obtain ⟨th, hth⟩ := hloop
    rw [hsched] at hth
    exact ⟨th, hth⟩
  | ok d' =>
    rw [hd] at hloop
    obtain ⟨hd', enabled, hreach⟩ := hloop
    refine hreach.trans ?_
    -- the end of the loop
    have hback : Function.update threads d'.scheduledTerm .user = threads := by
      rw [hd', hsched]
      exact (Function.update_eq_self_iff ..).2 huser.symm
    have hend : Phase.run d'.scheduledTerm d' enabled [] .next
        = .ok (if d'.scheduledTerm = d'.visibleTerm
            then d'.updateCursor d.writePatch.scheduledTerm else d', .user) := by
      rw [Phase.run, hd']
    have hstep := alone_step threads hend (by split <;> rfl)
    generalize hd'' : (if d'.scheduledTerm = d'.visibleTerm
      then d'.updateCursor d.writePatch.scheduledTerm else d') = d'' at hstep
    have hsched'' : d''.scheduledTerm = d'.scheduledTerm := by
      rw [← hd'']
      split <;> rfl
    have hlast : running threads d'' .user = ⟨d'', threads, false, none⟩ := by
      rw [running, hsched'', hback]
    rw [hlast] at hstep
    exact hstep

end Output

end WnajOS
