import WnajOS.Arrays
import WnajOS.Preemption
import WnajOS.StatusClock

/-!
# The status bar

The row below the 24 rows of the screen belongs to the kernel.  `init_terms` and `term_switch`
write the number of the visible terminal there, `print_time` the clock, and `mouse_handler` a
message for every button that is pressed, which `rtc_handler` takes away three seconds later.

The machine is that of the writers (`Output`), with interrupts of the mouse and of the RTC wherever
one can come: not while `term_switch` has yet to store its number, as the interrupt of the keyboard
is still in service then.  `StatusBar` is what the row is for; `status_bar` says that the row is
always what it should be, in the runs in which the writers stay aimed at their cursors.
-/

namespace WnajOS

/-! ### `status_puts` -/

/-- `KALB_TRIB`. -/
def kalbTrib : UInt8 := 0x1C

namespace Display

/-- The attribute of a character in the status bar. -/
def statusColor (col : ℕ) (color : UInt8) (d : Display) : Display :=
  let mem := d.frame physVidmem
  let page := Function.update (d.vram mem) ((24 * 80 + col) * 2 + 1) color
  { d with vram := Function.update d.vram mem page }

/-- The loop over the columns of the messages, in `status_puts` and in `rtc_handler`. -/
def blankMessage (d : Display) : Display :=
  (List.range' 10 53).foldl (fun d i => statusStore (i, 0x20) d) d

/-- The loop of `status_puts`, with the bytes `s` left. -/
def statusPutsFrom (msgType : UInt8) : (s : Str) → (printOffset : ℕ) → Display → Display
  | [], _, d => d
  | c :: s, printOffset, d =>
    let d := statusStore (printOffset, c) d
    let d := if msgType = 1 then statusColor printOffset kalbTrib d else d
    statusPutsFrom msgType s (printOffset + 1) d

/-- `status_puts`. -/
def statusPuts (s : Str) (msgType : UInt8) (d : Display) : Display :=
  let d := if msgType = 1 then blankMessage d else d
  let printOffset := if msgType = 1 then 36 - strlen s / 2 else 0
  statusPutsFrom msgType (cstr s) printOffset d

/-- The end of `init_terms`. -/
def initStatus (d : Display) : Display :=
  let d := statusPuts (text "Terminal ") 0 d
  let d := { d with visibleTerm := 0, scheduledTerm := 2 }
  statusStore (9, 0x30 + UInt8.ofNat d.visibleTerm) d

end Display

/-! ### `mouse_handler` and `rtc_handler` -/

/-- `kalbaking`. -/
def kalbaking : List Str := [
  text "Can you think about the answer or can you not",
  text "You guys you complained a lot",
  text "I give this question, and they still mess it up",
  text "Everybody is nice in principle",
  text "That was joke everyone",
  text "All that time spent complaining could be coding",
  text "Dont memorise this; You will suffer and learn",
  text "You are making fun of me",
  text "Elementary schoolers can do this",
  text "If I give you CD, you cant even read CD anymore"]

/-- The message for the right button. -/
def sophomore : Str := text "Imagine not taking 391 as a Sophomore"

/-- The variables `i`, `left_btn` and `right_btn` of `mouse.c`, and `delay`, `rtc_count` and
`randomizer` of `rtc.c`. -/
structure StatusVars where
  i : ℤ
  leftBtn : Bool
  rightBtn : Bool
  delay : ℤ
  rtcCount : ℕ
  randomizer : ℤ

/-- The variables at boot. -/
def StatusVars.boot : StatusVars := ⟨-1, false, false, 0, 0, 0⟩

namespace Display

/-- What `mouse_handler` does with the first byte of a packet. -/
def firstPacket (packet : UInt8) (v : StatusVars) (d : Display) : StatusVars × Display :=
  let left := packet &&& 0x01 ≠ 0
  let right := packet &&& 0x02 ≠ 0
  let (v, d) := if ¬v.leftBtn ∧ left then
      ({ v with leftBtn := true, delay := 3 * 512 },
        d.statusPuts (kalbaking.getD v.randomizer.toNat []) 1)
    else (v, d)
  let v := if v.leftBtn ∧ ¬left then { v with leftBtn := false } else v
  let (v, d) := if ¬v.rightBtn ∧ right then
      ({ v with rightBtn := true, delay := 3 * 512 }, d.statusPuts sophomore 1)
    else (v, d)
  let v := if v.rightBtn ∧ ¬right then { v with rightBtn := false } else v
  (v, d)

/-- `mouse_handler`.  The other bytes of a packet are not looked at. -/
def mouseHandler (packet : UInt8) (v : StatusVars) (d : Display) : StatusVars × Display :=
  let (v, d) := if v.i = 0 then firstPacket packet v d else (v, d)
  ({ v with i := (v.i + 1).tmod 3 }, d)

/-- The clock in `rtc_handler`; `none` for the divide error of `print_time`. -/
def rtcClock (c : Cmos) (v : StatusVars) (d : Display) : Option (StatusVars × Display) :=
  if v.rtcCount % 512 = 0 then
    (d.printTime c).map fun x => ({ v with randomizer := x.1, rtcCount := 0 }, x.2)
  else some (v, d)

/-- `rtc_handler`, but for the counters of the terminals (`Rtc.rtcHandler`). -/
def rtcHandler (c : Cmos) (v : StatusVars) (d : Display) : Option (StatusVars × Display) :=
  (rtcClock c { v with rtcCount := v.rtcCount + 1 } d).map fun (v, d) =>
    let v := if v.delay > 0 then { v with delay := v.delay - 1 } else v
    (v, if v.delay = 1 then d.blankMessage else d)

end Display

/-! ### The machine -/

/-- The writers, and the variables of the two handlers. -/
structure Desk where
  output : Output
  vars : StatusVars

/-- What happens next. -/
inductive DeskEvent
  /-- an interrupt of the mouse, and the byte it sends -/
  | mouse (packet : UInt8)
  /-- an interrupt of the RTC, and what the CMOS holds -/
  | rtc (c : Cmos)
  /-- anything else -/
  | other (e : OutEvent)

namespace Desk

/-- The display and the variables after a handler. -/
def handled (m : Desk) (x : StatusVars × Display) : Desk :=
  ⟨{ m.output with display := x.2 }, x.1⟩

/-- An interrupt of the mouse or of the RTC can come. -/
def Enabled (m : Desk) : Prop :=
  m.output.fault = false ∧ m.output.current.Enabled ∧ m.output.switching = none

instance (m : Desk) : Decidable m.Enabled := inferInstanceAs (Decidable (_ ∧ _ ∧ _))

/-- One step of the machine, `none` where the event cannot happen. -/
def step (e : DeskEvent) (m : Desk) : Option Desk :=
  match e with
  | .mouse packet =>
    if m.Enabled then some (m.handled (m.output.display.mouseHandler packet m.vars)) else none
  | .rtc c => if m.Enabled then (m.output.display.rtcHandler c m.vars).map m.handled else none
  | .other e => (m.output.step e).map fun o => { m with output := o }

/-- The machine at boot. -/
def boot (l : Layout) (pg : Paging) (vram : ℕ → ℕ → UInt8) (mem : ℤ → Pcb) : Desk :=
  let o := Output.boot l pg vram mem
  ⟨{ o with display := o.display.initStatus }, .boot⟩

end Desk

/-! ### What the status bar is for -/

/-- The message that a clock reading chooses for the left button. -/
def Cmos.quote (c : Cmos) : Fin 10 :=
  Fin.ofNat 10 ((fromBcd c.sec * 20 + fromBcd c.min * 10 + fromBcd c.hr).toNat /
    (fromBcd c.day).toNat)

/-- The terminal whose number is shown, and the one that `term_switch` has made visible since; the
number of bytes that the mouse has sent, and the buttons in the last packet; the number of interrupts
of the RTC, the last reading of the clock, and the last message with the number of interrupts
since. -/
structure StatusBar where
  terminal : ℕ
  switching : Option ℕ
  bytes : ℕ
  buttons : UInt8
  ticks : ℕ
  clock : Option Cmos
  message : Option (Str × ℕ)

namespace StatusBar

/-- The status bar at boot. -/
def boot : StatusBar := ⟨0, none, 0, 0, 0, none, none⟩

/-- A button that was not pressed is pressed. -/
def Pressed (bit buttons packet : UInt8) : Prop := buttons &&& bit = 0 ∧ packet &&& bit ≠ 0

instance (bit buttons packet : UInt8) : Decidable (Pressed bit buttons packet) :=
  inferInstanceAs (Decidable (_ ∧ _))

/-- The message for the left button. -/
def quote (b : StatusBar) : Str := kalbaking.getD ((b.clock.map Cmos.quote).getD 0).val []

/-- The message after the first byte of a packet. -/
def announce (packet : UInt8) (b : StatusBar) : Option (Str × ℕ) :=
  if Pressed 0x02 b.buttons packet then some (sophomore, 0)
  else if Pressed 0x01 b.buttons packet then some (b.quote, 0)
  else b.message

/-- The status bar after an event.  The first byte of the mouse is the acknowledgement of the last
command; then come packets of three bytes.  The clock is read every 512 interrupts. -/
def next (b : StatusBar) : DeskEvent → StatusBar
  | .mouse packet =>
    if b.bytes % 3 = 1 then
      { b with bytes := b.bytes + 1, buttons := packet, message := b.announce packet }
    else { b with bytes := b.bytes + 1 }
  | .rtc c =>
    { b with
      ticks := b.ticks + 1
      clock := if (b.ticks + 1) % 512 = 0 then some c else b.clock
      message := b.message.map fun x => (x.1, x.2 + 1) }
  | .other (.switch t) => if t = b.terminal then b else { b with switching := some t }
  | .other .number => { b with terminal := b.switching.getD b.terminal, switching := none }
  | .other _ => b

/-- The columns of a message, which stands in the middle of them. -/
def centred (s : Str) (col : ℕ) : UInt8 :=
  if 36 - s.length / 2 ≤ col ∧ col < 36 - s.length / 2 + s.length then
    s.byteAt (col - (36 - s.length / 2))
  else 0x20

/-- The columns of the message, which is gone after 1535 interrupts. -/
def messageByte (old : ℕ → UInt8) : Option (Str × ℕ) → (col : ℕ) → UInt8
  | some (s, age), col => if age < 1535 then centred s col else 0x20
  | none, col => old col

/-- The columns of the clock. -/
def clockByte (old : ℕ → UInt8) : Option Cmos → (col : ℕ) → UInt8
  | some c, col => c.decode.sixHoursBack.stores.foldl (fun f x => Function.update f x.1 x.2) old col
  | none, col => old col

/-- What the status bar shows; `old` is what stood there at boot. -/
def shown (old : ℕ → UInt8) (b : StatusBar) (col : ℕ) : UInt8 :=
  if col < 9 then (text "Terminal ").byteAt col
  else if col = 9 then 0x30 + UInt8.ofNat b.terminal
  else if col < 63 then messageByte old b.message col
  else clockByte old b.clock col

end StatusBar

/-! ### Stores in the status bar -/

namespace Display

/-- `d'` differs from `d` in video memory below the 24 rows only. -/
structure BarOnly (d d' : Display) : Prop where
  same : d' = { d with vram := d'.vram }
  rows : ∀ page, ∀ i < termRows * termCols * 2, d'.vram page i = d.vram page i

namespace BarOnly

variable {d d' d'' : Display}

lemma refl (d : Display) : BarOnly d d := ⟨rfl, fun _ _ _ => rfl⟩

lemma trans (h : BarOnly d d') (h' : BarOnly d' d'') : BarOnly d d'' := by
  refine ⟨?_, fun page i hi => (h'.rows page i hi).trans (h.rows page i hi)⟩
  rw [h'.same, h.same]

lemma drawn (h : BarOnly d d') : Drawn d d' := by
  rw [h.same]
  exact ⟨rfl, rfl, rfl, fun _ => rfl, fun _ => rfl⟩

lemma sameScreen (h : BarOnly d d') (t : ℕ) : SameScreen t d d' := by
  have hpage : d'.screenPage t = d.screenPage t := by
    rw [screenPage, screenPage, h.drawn.visibleTerm]
  constructor
  · rw [h.same]
  · intro i hi
    rw [hpage]
    exact h.rows _ i hi

end BarOnly

variable (d : Display)

/-- A store below the 24 rows. -/
lemma update_barOnly (mem : ℕ) {cell : ℕ} (hcell : termRows * termCols * 2 ≤ cell) (b : UInt8) :
    BarOnly d { d with
      vram := Function.update d.vram mem (Function.update (d.vram mem) cell b) } := by
  refine ⟨rfl, fun page i hi => ?_⟩
  dsimp only
  by_cases hpage : page = mem
  · rw [hpage, Function.update_self, Function.update_of_ne (by omega)]
  · rw [Function.update_of_ne hpage]

lemma statusStore_barOnly (x : ℕ × UInt8) : BarOnly d (statusStore x d) :=
  update_barOnly d _ (by rw [termRows, termCols]; omega) x.2

lemma statusColor_barOnly (col : ℕ) (color : UInt8) : BarOnly d (d.statusColor col color) :=
  update_barOnly d _ (by rw [termRows, termCols]; omega) color

lemma foldl_statusStore_barOnly {α : Type*} (f : α → ℕ × UInt8) (l : List α) :
    BarOnly d (l.foldl (fun d i => statusStore (f i) d) d) := by
  induction l generalizing d with
  | nil => exact BarOnly.refl d
  | cons i l ih => exact (statusStore_barOnly d (f i)).trans (ih _)

lemma statusPutsFrom_barOnly (msgType : UInt8) (s : Str) (printOffset : ℕ) :
    BarOnly d (statusPutsFrom msgType s printOffset d) := by
  induction s generalizing d printOffset with
  | nil => exact BarOnly.refl d
  | cons c s ih =>
    rw [statusPutsFrom]
    refine (statusStore_barOnly d (printOffset, c)).trans (BarOnly.trans ?_ (ih _ _))
    split
    · exact statusColor_barOnly _ _ _
    · exact BarOnly.refl _

lemma statusPuts_barOnly (s : Str) (msgType : UInt8) : BarOnly d (d.statusPuts s msgType) := by
  rw [statusPuts]
  refine BarOnly.trans ?_ (statusPutsFrom_barOnly _ msgType _ _)
  split
  · exact foldl_statusStore_barOnly d _ _
  · exact BarOnly.refl d

/-! ### The characters of the status bar -/

lemma statusByte_statusColor (col : ℕ) (color : UInt8) (i : ℕ) :
    (d.statusColor col color).statusByte i = d.statusByte i := by
  have hframe : (d.statusColor col color).frame physVidmem = d.frame physVidmem := rfl
  rw [statusByte, hframe, statusColor]
  dsimp only
  rw [Function.update_self, Function.update_of_ne (by omega), statusByte]

/-- The characters after stores one after the other. -/
lemma statusByte_foldl (l : List (ℕ × UInt8)) : (l.foldl (fun d x => statusStore x d) d).statusByte =
    l.foldl (fun f x => Function.update f x.1 x.2) d.statusByte := by
  induction l generalizing d with
  | nil => rfl
  | cons x l ih =>
    rw [List.foldl_cons, List.foldl_cons, ih]
    congr 1
    funext col
    rw [statusByte_statusStore, Function.update_apply]

lemma statusByte_blanks (start n col : ℕ) :
    ((List.range' start n).foldl (fun d i => statusStore (i, 0x20) d) d).statusByte col =
      if start ≤ col ∧ col < start + n then 0x20 else d.statusByte col := by
  induction n generalizing d start with
  | zero => rw [if_neg (by omega)]; rfl
  | succ n ih =>
    rw [List.range'_succ, List.foldl_cons, ih, statusByte_statusStore]
    dsimp only
    split
    · rw [if_pos (by omega)]
    · split
      · rw [if_pos (by omega)]
      · rw [if_neg (by omega)]

/-- The message is taken away. -/
lemma statusByte_blankMessage (col : ℕ) : d.blankMessage.statusByte col =
    if 10 ≤ col ∧ col < 63 then 0x20 else d.statusByte col := statusByte_blanks d 10 53 col

lemma statusByte_statusPutsFrom (msgType : UInt8) (s : Str) (printOffset col : ℕ) :
    (statusPutsFrom msgType s printOffset d).statusByte col =
      if printOffset ≤ col ∧ col < printOffset + s.length then s.byteAt (col - printOffset)
      else d.statusByte col := by
  induction s generalizing d printOffset with
  | nil => rw [List.length_nil, if_neg (by omega)]; rfl
  | cons c s ih =>
    rw [statusPutsFrom, ih]
    have hhead : ∀ d' : Display,
        (if msgType = 1 then d'.statusColor printOffset kalbTrib else d').statusByte col
          = d'.statusByte col := by
      intro d'
      split
      · exact statusByte_statusColor d' _ _ _
      · rfl
    rw [hhead, statusByte_statusStore, List.length_cons]
    by_cases hcol : col = printOffset
    · rw [if_neg (by omega), if_pos hcol, if_pos (by omega), hcol, Nat.sub_self]
      rfl
    · rw [if_neg hcol]
      by_cases hin : printOffset + 1 ≤ col ∧ col < printOffset + 1 + s.length
      · rw [if_pos hin, if_pos (by omega)]
        obtain ⟨k, rfl⟩ : ∃ k, col = printOffset + 1 + k := ⟨col - (printOffset + 1), by omega⟩
        rw [Nat.add_sub_cancel_left, Nat.add_assoc, Nat.add_sub_cancel_left, Nat.add_comm 1]
        rfl
      · rw [if_neg hin, if_neg (by omega)]

/-- A message that has a place between the terminal and the clock. -/
def Fits (s : Str) : Prop := 0 ∉ s ∧ s.length ≤ 53

instance : DecidablePred Fits := fun s => inferInstanceAs (Decidable (0 ∉ s ∧ s.length ≤ 53))

/-- A message takes the columns between the terminal and the clock. -/
lemma statusByte_statusPuts {s : Str} (hs : Fits s) (col : ℕ) : (d.statusPuts s 1).statusByte col =
    if 10 ≤ col ∧ col < 63 then StatusBar.centred s col else d.statusByte col := by
  obtain ⟨h0, hlength⟩ := hs
  have hcstr : cstr s = s := cstr_eq_self h0
  have hstrlen : strlen s = s.length := congrArg List.length hcstr
  rw [statusPuts, if_pos rfl, if_pos rfl, statusByte_statusPutsFrom, hcstr, hstrlen,
    statusByte_blankMessage, StatusBar.centred]
  by_cases hin : 36 - s.length / 2 ≤ col ∧ col < 36 - s.length / 2 + s.length
  · rw [if_pos hin, if_pos hin, if_pos (by omega)]
  · rw [if_neg hin, if_neg hin]

end Display

/-- Every message for the left button fits. -/
lemma kalbaking_fits (i : Fin 10) : Display.Fits (kalbaking.getD i.val []) := by
  revert i
  decide

lemma sophomore_fits : Display.Fits sophomore := by decide

/-! ### What the writers leave alone -/

namespace Display

/-- `d'` differs from `d` in video memory in the 24 rows only. -/
def TextOnly (d d' : Display) : Prop :=
  ∀ page i, termRows * termCols * 2 ≤ i → d'.vram page i = d.vram page i

namespace TextOnly

variable {d d' d'' : Display}

lemma of_vram (h : d'.vram = d.vram) : TextOnly d d' := fun page i _ => by rw [h]

lemma trans (h : TextOnly d d') (h' : TextOnly d' d'') : TextOnly d d'' :=
  fun page i hi => (h' page i hi).trans (h page i hi)

/-- The status bar is the same where video memory is mapped to the same page. -/
lemma statusByte (h : TextOnly d d') (hframe : d'.frame physVidmem = d.frame physVidmem) (col : ℕ) :
    d'.statusByte col = d.statusByte col := by
  rw [Display.statusByte, Display.statusByte, hframe]
  exact h _ _ (by rw [termRows, termCols]; omega)

end TextOnly

variable {t : ℕ} {c : UInt8} {d : Display}

lemma scroll_textOnly (rows t : ℕ) (d : Display) : TextOnly d (d.scroll rows t) := by
  intro page i hi
  rw [scroll]
  dsimp only
  generalize d.frame _ = mem
  rw [Function.update_apply]
  split
  · rename_i hpage
    have hle : (termRows - rows) * termCols * 2 ≤ termRows * termCols * 2 :=
      Nat.mul_le_mul_right 2 (Nat.mul_le_mul_right termCols (Nat.sub_le ..))
    rw [panPage, if_neg (by omega), if_neg (by omega), hpage]
  · rfl

/-- A byte is drawn at a position of the screen. -/
lemma drawGlyph_textOnly (page : ℕ) (g : UInt8) (hx : d.screenX < termCols)
    (hy : d.screenY < termRows) : TextOnly d (d.drawGlyph page g) := by
  intro q i hi
  rw [drawGlyph]
  split
  · rfl
  · dsimp only
    rw [writeCell, Function.update_apply]
    split
    · rename_i hq
      dsimp only
      rw [termRows, termCols] at *
      rw [Function.update_of_ne (by omega), Function.update_of_ne (by omega), hq]
    · rfl

/-- A byte of the 24 rows is stored. -/
lemma setByte_textOnly (mem : ℕ) {cell : ℕ} (hcell : cell < termRows * termCols * 2) (b : UInt8) :
    TextOnly d { d with
      vram := Function.update d.vram mem (Function.update (d.vram mem) cell b) } := by
  intro page i hi
  dsimp only
  by_cases hpage : page = mem
  · rw [hpage, Function.update_self, Function.update_of_ne (by omega)]
  · rw [Function.update_of_ne hpage]

lemma cursorAfter_textOnly (c : UInt8) (p : Cursor) (t : ℕ) (d : Display) :
    TextOnly d (d.cursorAfter c p t) := by
  rw [cursorAfter_eq]
  split
  · exact TextOnly.of_vram rfl
  split
  · have hscroll : TextOnly (d.advance c t) ((d.advance c t).scroll panRows t) :=
      scroll_textOnly panRows t _
    exact hscroll
  · exact TextOnly.of_vram rfl

lemma writtenChar_textOnly (page : ℕ) (hcur : (d.terms t).cursor.InRange)
    (hback : c = 8 → (d.terms t).cursor ≠ ⟨0, 0⟩) : TextOnly d (d.writtenChar page t c) := by
  have hp := cursorBefore_inRange hcur hback
  have hbefore : TextOnly d (d.cursorBefore c t) := TextOnly.of_vram (cursorBefore_vram c t d)
  rw [writtenChar]
  generalize d.cursorBefore c t = d₁ at hp hbefore ⊢
  have hdraw := drawGlyph_textOnly (d := d₁.screenSeek (d₁.terms t).cursor) page (glyph c) hp.2 hp.1
  exact hbefore.trans (TextOnly.trans hdraw (cursorAfter_textOnly c _ t _))

lemma copyScreen_textOnly (dest src : ℕ) (d : Display) : TextOnly d (d.copyScreen dest src) := by
  intro page i hi
  rw [copyScreen]
  dsimp only
  rw [Function.update_apply]
  split
  · rename_i hpage
    rw [memcpy, if_neg (by omega), hpage]
  · rfl

lemma clearPhysScreen_textOnly (d : Display) : TextOnly d d.clearPhysScreen := by
  intro page i hi
  rw [clearPhysScreen]
  dsimp only
  rw [Function.update_apply]
  split
  · rename_i hpage
    rw [hpage]
    exact if_neg (by omega)
  · rfl

/-- A switch leaves the status bar alone up to the `sti` in `term_switch`. -/
lemma showTerm_statusByte (t : ℕ) (d : Display) (col : ℕ) :
    (d.showTerm t).statusByte col = d.statusByte col := by
  let d₁ := ((d.copyScreen (termMem d.visibleTerm) physVidmem).clearPhysScreen).copyScreen physVidmem
    (termMem t)
  have hcopies : TextOnly d d₁ :=
    ((copyScreen_textOnly _ _ d).trans (clearPhysScreen_textOnly _)).trans (copyScreen_textOnly _ _ _)
  exact hcopies.statusByte rfl col

/-- Then it writes the number of the visible terminal there. -/
lemma drawStatus_statusByte (d : Display) (col : ℕ) : d.drawStatus.statusByte col =
    if col = 9 then 0x30 + UInt8.ofNat d.visibleTerm else d.statusByte col :=
  statusByte_statusStore (9, 0x30 + UInt8.ofNat d.visibleTerm) d col

/-- The echo of a byte. -/
lemma echo_textOnly (ht : VideoTables d.paging) (hcur : (d.terms d.visibleTerm).cursor.InRange)
    (hback : c = 8 → (d.terms d.visibleTerm).cursor ≠ ⟨0, 0⟩) {d' : Display}
    (h : d.echo c = .ok d') : TextOnly d d' := by
  rw [echo_eq ht hcur hback] at h
  obtain rfl := Except.ok.inj h
  have hpatch : TextOnly d d.writePatch := TextOnly.of_vram (writePatch_vram d)
  split
  · exact hpatch
  · rw [← writePatch_terms] at hcur hback
    exact hpatch.trans (writtenChar_textOnly 0xB8 hcur hback)

end Display

/-- A step of a writer that is aimed. -/
lemma Phase.run_textOnly {t : ℕ} {d d' : Display} {phase : Phase} {th : Thread} (enabled : Bool)
    (rest : List UInt8) (ht : Display.VideoTables d.paging)
    (hmap : (d.paging.pageTable0 0xB8).addr = d.screenPage t)
    (hcur : (d.terms t).cursor.InRange) (haimed : phase.Aimed t d) (hseeked : phase.Seeked d)
    (h : phase.run t d enabled rest = .ok (d', th)) : Display.TextOnly d d' := by
  cases phase with
  | next =>
    cases rest with
    | nil =>
      obtain ⟨rfl, -⟩ := Prod.mk.inj (Except.ok.inj h)
      refine Display.TextOnly.of_vram ?_
      split
      · rfl
      · rfl
    | cons c cs =>
      rw [Phase.run] at h
      split at h
      · obtain ⟨rfl, -⟩ := Prod.mk.inj (Except.ok.inj h)
        exact Display.TextOnly.of_vram rfl
      · obtain ⟨rfl, -⟩ := Prod.mk.inj (Except.ok.inj h)
        exact Display.TextOnly.of_vram (Display.cursorBefore_vram c t d)
  | setXY c p =>
    have hput := Phase.putc_aimed ht hmap hcur haimed hseeked
    obtain ⟨hx, hy⟩ := hseeked
    obtain rfl : p = (d.terms t).cursor := haimed
    rw [Phase.run, hput] at h
    obtain ⟨rfl, -⟩ := Prod.mk.inj (Except.ok.inj h)
    exact Display.drawGlyph_textOnly _ _ (hx ▸ hcur.2) (hy ▸ hcur.1)
  | drawn c p =>
    rw [Phase.run] at h
    split at h
    · obtain ⟨rfl, -⟩ := Prod.mk.inj (Except.ok.inj h)
      exact Display.TextOnly.of_vram rfl
    · obtain ⟨rfl, -⟩ := Prod.mk.inj (Except.ok.inj h)
      exact Display.TextOnly.of_vram rfl
  | move mem i =>
    obtain ⟨rfl, -⟩ := Prod.mk.inj (Except.ok.inj h)
    have hi : i < 3680 := haimed
    exact Display.setByte_textOnly _ (by rw [termRows, termCols]; omega) _
  | blank mem i =>
    obtain ⟨rfl, -⟩ := Prod.mk.inj (Except.ok.inj h)
    have hi : i < 160 := haimed
    have hcell : (termRows - 1) * Display.rowBytes + i < termRows * termCols * 2 := by
      rw [termRows, termCols, Display.rowBytes, termCols]
      omega
    exact Display.setByte_textOnly _ hcell _
  | _ =>
    obtain ⟨rfl, -⟩ := Prod.mk.inj (Except.ok.inj h)
    exact Display.TextOnly.of_vram rfl

/-- A program stores in the 24 rows of its screen. -/
def InRows : OutEvent → Prop
  | .store i _ => i < termRows * termCols * 2
  | _ => True

instance : DecidablePred InRows
  | .store _ _ => inferInstanceAs (Decidable (_ < _))
  | .tick => .isTrue trivial
  | .echo _ => .isTrue trivial
  | .switch _ => .isTrue trivial
  | .number => .isTrue trivial
  | .start => .isTrue trivial
  | .write _ => .isTrue trivial
  | .run => .isTrue trivial

namespace Aimed

variable {m m' : Output}

/-- A step that is no part of a switch leaves the status bar alone. -/
lemma textOnly {e : OutEvent} (h : Aimed m) (hback : NoUnderflow e m) (hrows : InRows e)
    (hs : m.step e = some m') (hswitch : ∀ t, e ≠ .switch t) (hnumber : e ≠ .number) :
    m.display.TextOnly m'.display ∧ m'.display.visibleTerm = m.display.visibleTerm ∧
      m'.switching = m.switching := by
  obtain ⟨-, heff⟩ := Output.step_effect hs
  cases heff with
  | tick hen =>
    have hadv := Display.pitAdvance_advanced m.display
    rw [Output.tick]
    split
    · exact ⟨Display.TextOnly.of_vram hadv.vram, hadv.visibleTerm, rfl⟩
    · exact ⟨Display.TextOnly.of_vram hadv.vram, hadv.visibleTerm, rfl⟩
  | @echo c hen =>
    have hne : c = 8 → (m.display.terms m.display.visibleTerm).cursor ≠ ⟨0, 0⟩ := by
      rintro rfl
      exact hback _ rfl
    obtain ⟨d, heq, hon, -⟩ := h.echoed hback
    rw [heq]
    exact ⟨Display.echo_textOnly h.follows.tables (h.cursors _) hne heq,
      hon.visibleTerm.trans (Display.writePatch_visibleTerm _), rfl⟩
  | @switch t hen ht => exact absurd rfl (hswitch t)
  | number hb => exact absurd rfl hnumber
  | start hcur => exact ⟨Display.TextOnly.of_vram rfl, rfl, rfl⟩
  | write hcur =>
    exact ⟨Display.TextOnly.of_vram (Display.writePatch_vram _),
      Display.writePatch_visibleTerm _, rfl⟩
  | @store i b hcur hb hi =>
    rw [Display.userPoke]
    split
    · refine ⟨fun page j hj => ?_, rfl, rfl⟩
      change Function.update m.display.vram _ _ page j = _
      rw [Function.update_apply]
      split
      · rename_i hpage
        have hlt : i < termRows * termCols * 2 := hrows
        rw [Function.update_of_ne (by omega), hpage]
      · rfl
    · exact ⟨Display.TextOnly.of_vram rfl, rfl, rfl⟩
  | @run enabled phase rest hcur =>
    obtain ⟨d, th, hrun, hran, heq⟩ := h.ran hcur hback
    have haimed := h.threads m.display.scheduledTerm
    have hseeked := h.seeked
    rw [show m.thread m.display.scheduledTerm = .writing enabled phase rest from hcur] at haimed
    rw [hcur] at hseeked
    rw [heq]
    exact ⟨phase.run_textOnly enabled rest h.follows.tables
      (h.follows.mapped (by rw [hcur]; simp)).1 (h.cursors _) haimed hseeked hrun,
      hran.screen.visibleTerm, rfl⟩

/-- What a handler stores in the status bar does not concern the writers. -/
lemma barOnly (h : Aimed m) {d : Display} (hd : m.display.BarOnly d) :
    Aimed { m with display := d } := by
  have hfollows : VideoFollows ⟨d, m.thread, false, m.switching⟩ :=
    h.follows.draw hd.drawn id h.follows.panning
  have hseeked := h.seeked
  have hhidden := h.hidden
  rw [h.fault]
  refine h.same hfollows hd.sameScreen (fun t => Or.inl rfl) ?_ ?_
  · rw [hd.drawn.scheduledTerm]
    rw [Output.current] at hseeked
    cases hth : m.thread m.display.scheduledTerm with
    | writing enabled phase rest =>
      rw [hth] at hseeked
      rw [hd.same]
      cases phase <;> exact hseeked
    | _ => trivial
  · rw [hd.drawn.scheduledTerm, hd.drawn.visibleTerm]
    exact hhidden

end Aimed

/-! ### The handlers -/

section Handlers

variable {col : ℕ} {f g : ℕ → UInt8} {l : List (ℕ × UInt8)}

lemma foldl_update_of_notMem (h : col ∉ l.map Prod.fst) :
    l.foldl (fun f x => Function.update f x.1 x.2) f col = f col := by
  induction l generalizing f with
  | nil => rfl
  | cons x l ih =>
    rw [List.map_cons, List.mem_cons, not_or] at h
    rw [List.foldl_cons, ih h.2, Function.update_of_ne h.1]

/-- A column that is stored to does not depend on what stood there. -/
lemma foldl_update_of_mem (h : col ∈ l.map Prod.fst) :
    l.foldl (fun f x => Function.update f x.1 x.2) f col =
      l.foldl (fun f x => Function.update f x.1 x.2) g col := by
  induction l generalizing f g with
  | nil => exact absurd h List.not_mem_nil
  | cons x l ih =>
    rw [List.foldl_cons, List.foldl_cons]
    by_cases hl : col ∈ l.map Prod.fst
    · exact ih hl
    · obtain rfl : col = x.1 := (List.mem_cons.1 h).resolve_right hl
      rw [foldl_update_of_notMem hl, foldl_update_of_notMem hl, Function.update_self,
        Function.update_self]

/-- `print_time` stores in the last 17 columns. -/
lemma TimeVars.mem_stores (v : TimeVars) : col ∈ v.stores.map Prod.fst ↔ 63 ≤ col ∧ col < 80 := by
  have hcolumns : v.stores.map Prod.fst =
      [78, 79, 77, 75, 76, 74, 72, 73, 71, 69, 70, 68, 66, 67, 65, 63, 64] := rfl
  rw [hcolumns]
  simp only [List.mem_cons, List.not_mem_nil, or_false]
  omega

/-- `randomizer` after a reading is the number of a message. -/
lemma Cmos.randomizer_eq {c : Cmos} {r : ℤ} (h : c.decode.randomizer = some r) :
    r = c.quote.val := by
  have hcast : ∀ v : UInt8, ∃ n : ℕ, fromBcd v = n := fun v => ⟨_, rfl⟩
  obtain ⟨sec, hsec⟩ := hcast c.sec
  obtain ⟨min, hmin⟩ := hcast c.min
  obtain ⟨hr, hhr⟩ := hcast c.hr
  obtain ⟨day, hday⟩ := hcast c.day
  rw [TimeVars.randomizer, Cmos.decode] at h
  dsimp only at h
  rw [hsec, hmin, hhr, hday] at h
  split at h
  · exact absurd h (by simp)
  · rw [← Option.some.inj h, Cmos.quote, hsec, hmin, hhr, hday]
    have hsum : (sec : ℤ) * 20 + min * 10 + hr = ((sec * 20 + min * 10 + hr : ℕ) : ℤ) := by
      push_cast
      rfl
    rw [hsum, Int.toNat_natCast, Int.toNat_natCast, ← Int.ofNat_tdiv]
    rfl

end Handlers

namespace Display

variable {v : StatusVars} {d : Display}

/-- A button is pressed that was not pressed. -/
def Fresh (btn : Bool) (bit packet : UInt8) : Prop := btn = false ∧ packet &&& bit ≠ 0

instance (btn : Bool) (bit packet : UInt8) : Decidable (Fresh btn bit packet) :=
  inferInstanceAs (Decidable (_ ∧ _))

/-- What the first byte of a packet does. -/
structure Announced (packet : UInt8) (v : StatusVars) (d : Display) (v' : StatusVars) (d' : Display) :
    Prop where
  vars : v' = { v with
    leftBtn := packet &&& 0x01 ≠ 0, rightBtn := packet &&& 0x02 ≠ 0, delay := v'.delay }
  bar : d.BarOnly d'
  right : Fresh v.rightBtn 0x02 packet → v'.delay = 1536 ∧ ∀ col, d'.statusByte col =
    if 10 ≤ col ∧ col < 63 then StatusBar.centred sophomore col else d.statusByte col
  left : ¬Fresh v.rightBtn 0x02 packet → Fresh v.leftBtn 0x01 packet → v'.delay = 1536 ∧
    ∀ col, d'.statusByte col = if 10 ≤ col ∧ col < 63 then
      StatusBar.centred (kalbaking.getD v.randomizer.toNat []) col else d.statusByte col
  none : ¬Fresh v.rightBtn 0x02 packet → ¬Fresh v.leftBtn 0x01 packet → v'.delay = v.delay ∧ d' = d

/-- The four tests of `mouse_handler`: a message for each button that is pressed. -/
lemma firstPacket_eq (packet : UInt8) (v : StatusVars) (d : Display) : firstPacket packet v d =
    let d₁ := if Fresh v.leftBtn 0x01 packet then
      d.statusPuts (kalbaking.getD v.randomizer.toNat []) 1 else d
    let d₂ := if Fresh v.rightBtn 0x02 packet then d₁.statusPuts sophomore 1 else d₁
    ({ v with
      leftBtn := packet &&& 0x01 ≠ 0
      rightBtn := packet &&& 0x02 ≠ 0
      delay := if Fresh v.rightBtn 0x02 packet ∨ Fresh v.leftBtn 0x01 packet then 1536 else v.delay },
      d₂) := by
  obtain ⟨i, leftBtn, rightBtn, delay, rtcCount, randomizer⟩ := v
  rw [firstPacket]
  by_cases hl : packet &&& 0x01 = 0
  · by_cases hr : packet &&& 0x02 = 0
    · cases leftBtn <;> cases rightBtn <;> simp [Fresh, hl, hr]
    · cases leftBtn <;> cases rightBtn <;> simp [Fresh, hl, hr]
  · by_cases hr : packet &&& 0x02 = 0
    · cases leftBtn <;> cases rightBtn <;> simp [Fresh, hl, hr]
    · cases leftBtn <;> cases rightBtn <;> simp [Fresh, hl, hr]

lemma firstPacket_announced (packet : UInt8) (d : Display)
    (hfits : Fits (kalbaking.getD v.randomizer.toNat [])) :
    Announced packet v d (firstPacket packet v d).1 (firstPacket packet v d).2 := by
  have hquote := statusByte_statusPuts d hfits
  have hbar := statusPuts_barOnly d (kalbaking.getD v.randomizer.toNat []) 1
  rw [firstPacket_eq]
  generalize d.statusPuts (kalbaking.getD v.randomizer.toNat []) 1 = d₁ at hquote hbar ⊢
  refine ⟨rfl, ?_, fun hr => ?_, fun hr hl => ?_, fun hr hl => ?_⟩
  · dsimp only
    have hfirst : d.BarOnly (if Fresh v.leftBtn 0x01 packet then d₁ else d) := by
      split
      · exact hbar
      · exact BarOnly.refl d
    split
    · exact hfirst.trans (statusPuts_barOnly _ sophomore 1)
    · exact hfirst
  · dsimp only
    rw [if_pos (Or.inl hr), if_pos hr]
    refine ⟨rfl, fun col => ?_⟩
    rw [statusByte_statusPuts _ sophomore_fits]
    -- the message for the left button is written over
    by_cases hcol : 10 ≤ col ∧ col < 63
    · rw [if_pos hcol, if_pos hcol]
    · rw [if_neg hcol, if_neg hcol]
      split
      · rw [hquote, if_neg hcol]
      · rfl
  · dsimp only
    rw [if_pos (Or.inr hl), if_neg hr, if_pos hl]
    exact ⟨rfl, hquote⟩
  · dsimp only
    rw [if_neg (not_or.2 ⟨hr, hl⟩), if_neg hr, if_neg hl]
    exact ⟨rfl, rfl⟩

/-- What `rtc_handler` does: the clock every 512 interrupts, and the message taken away in time. -/
structure Ticked (c : Cmos) (v : StatusVars) (d : Display) (v' : StatusVars) (d' : Display) :
    Prop where
  vars : v' = { v with
    delay := if v.delay > 0 then v.delay - 1 else v.delay
    rtcCount := (v.rtcCount + 1) % 512
    randomizer := if (v.rtcCount + 1) % 512 = 0 then c.quote.val else v.randomizer }
  bar : d.BarOnly d'
  message : ∀ col < 63, d'.statusByte col =
    if v'.delay = 1 ∧ 10 ≤ col then 0x20 else d.statusByte col
  clock : ∀ col < 80, 63 ≤ col → d'.statusByte col =
    if (v.rtcCount + 1) % 512 = 0 then
      c.decode.sixHoursBack.stores.foldl (fun f x => Function.update f x.1 x.2) d.statusByte col
    else d.statusByte col

/-- The clock, when it is time for it. -/
lemma printTime_stores {c : Cmos} {x : ℤ × Display} (h : d.printTime c = some x) :
    x.1 = c.quote.val ∧ d.BarOnly x.2 ∧ x.2.statusByte =
      c.decode.sixHoursBack.stores.foldl (fun f x => Function.update f x.1 x.2) d.statusByte := by
  rw [printTime] at h
  obtain ⟨r, hr, rfl⟩ := Option.map_eq_some_iff.1 h
  exact ⟨Cmos.randomizer_eq hr, foldl_statusStore_barOnly d id _, statusByte_foldl d _⟩

/-- The variables and the display after the clock. -/
lemma rtcClock_spec {c : Cmos} {x : StatusVars × Display} (hcount : v.rtcCount < 512)
    (h : d.rtcClock c { v with rtcCount := v.rtcCount + 1 } = some x) :
    d.BarOnly x.2 ∧ x.1 = { v with
      rtcCount := (v.rtcCount + 1) % 512
      randomizer := if (v.rtcCount + 1) % 512 = 0 then c.quote.val else v.randomizer } ∧
    x.2.statusByte = if (v.rtcCount + 1) % 512 = 0 then
        c.decode.sixHoursBack.stores.foldl (fun f x => Function.update f x.1 x.2) d.statusByte
      else d.statusByte := by
  rw [rtcClock] at h
  dsimp only at h
  by_cases htime : (v.rtcCount + 1) % 512 = 0
  · rw [if_pos htime] at h
    obtain ⟨y, hy, rfl⟩ := Option.map_eq_some_iff.1 h
    obtain ⟨hrandom, hbar, hbytes⟩ := printTime_stores hy
    exact ⟨hbar, by simp only [htime, hrandom, if_true], by rw [if_pos htime, hbytes]⟩
  · rw [if_neg htime] at h
    obtain rfl := Option.some.inj h
    have hmod : (v.rtcCount + 1) % 512 = v.rtcCount + 1 := by omega
    exact ⟨BarOnly.refl d, by rw [if_neg htime, hmod], by rw [if_neg htime]⟩

/-- The message is taken away when the count comes to one. -/
lemma rtcHandler_ticked {c : Cmos} {x : StatusVars × Display} (hcount : v.rtcCount < 512)
    (h : d.rtcHandler c v = some x) : Ticked c v d x.1 x.2 := by
  rw [rtcHandler] at h
  obtain ⟨⟨v₁, d₁⟩, hclock, rfl⟩ := Option.map_eq_some_iff.1 h
  obtain ⟨hbar, hv₁, hbytes⟩ := rtcClock_spec hcount hclock
  dsimp only at hbar hv₁ hbytes
  -- the count, and what the message is then
  have hvars : (if v₁.delay > 0 then { v₁ with delay := v₁.delay - 1 } else v₁) =
      { v₁ with delay := if v₁.delay > 0 then v₁.delay - 1 else v₁.delay } := by
    split
    · rfl
    · rfl
  dsimp only
  rw [hvars, hv₁]
  refine ⟨rfl, ?_, fun col hcol => ?_, fun col hlt hcol => ?_⟩
  · dsimp only
    generalize (if v.delay > 0 then v.delay - 1 else v.delay) = delay
    split
    · exact hbar.trans (foldl_statusStore_barOnly d₁ _ _)
    · exact hbar
  · have hbefore : d₁.statusByte col = d.statusByte col := by
      rw [hbytes]
      split
      · refine foldl_update_of_notMem ?_
        rw [TimeVars.mem_stores]
        omega
      · rfl
    dsimp only
    generalize (if v.delay > 0 then v.delay - 1 else v.delay) = delay
    by_cases hdelay : delay = 1
    · rw [if_pos hdelay, statusByte_blankMessage, hbefore]
      exact if_congr (by simp [hdelay, hcol]) rfl rfl
    · rw [if_neg hdelay, hbefore, if_neg (fun hand => hdelay hand.1)]
  · have hclock : d₁.statusByte col = if (v.rtcCount + 1) % 512 = 0 then
        c.decode.sixHoursBack.stores.foldl (fun f x => Function.update f x.1 x.2) d.statusByte col
      else d.statusByte col := by
      rw [hbytes]
      split
      · rfl
      · rfl
    rw [← hclock]
    dsimp only
    generalize (if v.delay > 0 then v.delay - 1 else v.delay) = delay
    split
    · rw [statusByte_blankMessage, if_neg (by omega)]
    · rfl

end Display

/-! ### The status bar in every run -/

/-- The conditions on a step: the writers stay aimed, and programs store in the rows of their
screens. -/
def DeskOk (e : DeskEvent) (m : Desk) : Prop :=
  match e with
  | .other e =>
    SwitchOk e m.output ∧ WindowOk e m.output ∧ NoUnderflow e m.output ∧ InRows e
  | _ => True

instance : (e : DeskEvent) → (m : Desk) → Decidable (DeskOk e m)
  | .mouse _, _ => .isTrue trivial
  | .rtc _, _ => .isTrue trivial
  | .other _, _ => inferInstanceAs (Decidable (_ ∧ _ ∧ _ ∧ _))

/-- **The invariant.**  The variables of the handlers are those of the status bar `b`, and the row
shows it. -/
structure ShowsBar (old : ℕ → UInt8) (m : Desk) (b : StatusBar) : Prop where
  aimed : Aimed m.output
  terminal : m.output.display.visibleTerm = b.switching.getD b.terminal
  switching : m.output.switching.isSome = b.switching.isSome
  i : m.vars.i = if b.bytes = 0 then -1 else (((b.bytes - 1) % 3 : ℕ) : ℤ)
  leftBtn : m.vars.leftBtn = decide (b.buttons &&& 0x01 ≠ 0)
  rightBtn : m.vars.rightBtn = decide (b.buttons &&& 0x02 ≠ 0)
  delay : m.vars.delay = match b.message with
    | some (_, age) => ((1536 - age : ℕ) : ℤ)
    | none => 0
  rtcCount : m.vars.rtcCount = b.ticks % 512
  randomizer : m.vars.randomizer = ((b.clock.map Cmos.quote).getD 0).val
  row : ∀ col < 80, m.output.display.statusByte col = b.shown old col

namespace ShowsBar

variable {old : ℕ → UInt8} {m m' : Desk} {b : StatusBar}

/-- The terminal, where no switch is under way. -/
lemma settled (h : ShowsBar old m b) (hnone : m.output.switching = none) :
    b.switching = none ∧ m.output.display.visibleTerm = b.terminal := by
  have hsome := h.switching
  rw [hnone] at hsome
  have hno : b.switching = none := Option.not_isSome_iff_eq_none.1 (hsome ▸ Bool.false_ne_true)
  exact ⟨hno, by rw [h.terminal, hno, Option.getD_none]⟩

/-- The page of the status bar. -/
lemma frame_eq {m : Output} (h : Aimed m) : m.display.frame physVidmem = 0xB8 :=
  h.follows.tables.fixed.2

/-- The message for the left button. -/
lemma quote_eq (h : ShowsBar old m b) : kalbaking.getD m.vars.randomizer.toNat [] = b.quote := by
  rw [h.randomizer, StatusBar.quote, Int.toNat_natCast]

lemma quote_fits (h : ShowsBar old m b) :
    Display.Fits (kalbaking.getD m.vars.randomizer.toNat []) := by
  rw [h.randomizer, Int.toNat_natCast]
  exact kalbaking_fits _

/-- The place in a packet of the next byte. -/
lemma next_i (h : ShowsBar old m b) : (m.vars.i + 1).tmod 3 = ((b.bytes % 3 : ℕ) : ℤ) := by
  rw [h.i]
  split
  · rename_i h0
    rw [h0]
    rfl
  · rw [Int.tmod_eq_emod_of_nonneg (by omega)]
    omega

/-- The place in a packet of the byte that comes. -/
lemma i_eq_zero (h : ShowsBar old m b) : m.vars.i = 0 ↔ b.bytes % 3 = 1 := by
  rw [h.i]
  split
  · omega
  · omega

lemma fresh_iff {btn : Bool} {bit buttons packet : UInt8} (h : btn = decide (buttons &&& bit ≠ 0)) :
    Display.Fresh btn bit packet ↔ StatusBar.Pressed bit buttons packet := by
  rw [Display.Fresh, StatusBar.Pressed, h]
  simp

/-- The first byte of a packet. -/
lemma announce (h : ShowsBar old m b) (packet : UInt8) {x : StatusVars × Display}
    (hx : Display.Announced packet m.vars m.output.display x.1 x.2) (hbytes : b.bytes % 3 = 1) :
    ShowsBar old (m.handled ({ x.1 with i := (x.1.i + 1).tmod 3 }, x.2))
      (b.next (.mouse packet)) := by
  have hnext : b.next (.mouse packet) =
      { b with bytes := b.bytes + 1, buttons := packet, message := b.announce packet } :=
    if_pos hbytes
  -- what becomes of the message
  have hmessage : (x.1.delay = match b.announce packet with
      | some (_, age) => ((1536 - age : ℕ) : ℤ)
      | none => 0) ∧ ∀ col < 80, x.2.statusByte col =
        if 10 ≤ col ∧ col < 63 then StatusBar.messageByte old (b.announce packet) col
        else b.shown old col := by
    have hfresh : ∀ {s : Str} {delay : ℤ}, delay = 1536 → (∀ col, x.2.statusByte col =
        if 10 ≤ col ∧ col < 63 then StatusBar.centred s col else m.output.display.statusByte col) →
        delay = ((1536 - 0 : ℕ) : ℤ) ∧ ∀ col < 80, x.2.statusByte col =
          if 10 ≤ col ∧ col < 63 then StatusBar.messageByte old (some (s, 0)) col
          else b.shown old col := by
      intro s delay hdelay hbytes
      refine ⟨hdelay, fun col hcol => ?_⟩
      rw [hbytes, h.row col hcol]
      rfl
    rw [StatusBar.announce]
    by_cases hr : StatusBar.Pressed 0x02 b.buttons packet
    · obtain ⟨hdelay, hrow⟩ := hx.right ((fresh_iff h.rightBtn).2 hr)
      rw [if_pos hr]
      exact hfresh hdelay hrow
    rw [if_neg hr]
    by_cases hl : StatusBar.Pressed 0x01 b.buttons packet
    · obtain ⟨hdelay, hrow⟩ := hx.left (fun hf => hr ((fresh_iff h.rightBtn).1 hf))
        ((fresh_iff h.leftBtn).2 hl)
      rw [h.quote_eq] at hrow
      rw [if_pos hl]
      exact hfresh hdelay hrow
    · obtain ⟨hdelay, hd⟩ := hx.none (fun hf => hr ((fresh_iff h.rightBtn).1 hf))
        (fun hf => hl ((fresh_iff h.leftBtn).1 hf))
      rw [if_neg hl]
      refine ⟨hdelay.trans h.delay, fun col hcol => ?_⟩
      rw [hd, h.row col hcol]
      by_cases hin : 10 ≤ col ∧ col < 63
      · rw [if_pos hin, StatusBar.shown, if_neg (by omega), if_neg (by omega), if_pos hin.2]
      · rw [if_neg hin]
  have hi := h.next_i
  obtain ⟨hdelay, hrow⟩ := hmessage
  rw [hnext]
  refine ⟨h.aimed.barOnly hx.bar, ?_, h.switching, ?_, ?_, ?_, hdelay, ?_, ?_, fun col hcol => ?_⟩
  · exact hx.bar.drawn.visibleTerm.trans h.terminal
  · dsimp only [Desk.handled]
    rw [hx.vars, if_neg (Nat.succ_ne_zero _), Nat.add_sub_cancel]
    exact hi
  · dsimp only [Desk.handled]
    rw [hx.vars]
  · dsimp only [Desk.handled]
    rw [hx.vars]
  · dsimp only [Desk.handled]
    rw [hx.vars]
    exact h.rtcCount
  · dsimp only [Desk.handled]
    rw [hx.vars]
    exact h.randomizer
  · refine (hrow col hcol).trans ?_
    rw [StatusBar.shown, StatusBar.shown]
    dsimp only
    by_cases hin : 10 ≤ col ∧ col < 63
    · rw [if_pos hin, if_neg (by omega), if_neg (by omega), if_pos hin.2]
    · rw [if_neg hin]
      split
      · rfl
      split
      · rfl
      · rw [if_neg (by omega), if_neg (by omega)]

/-- An interrupt of the mouse. -/
lemma mouse (h : ShowsBar old m b) (packet : UInt8) :
    ShowsBar old (m.handled (m.output.display.mouseHandler packet m.vars))
      (b.next (.mouse packet)) := by
  rw [Display.mouseHandler]
  by_cases h0 : m.vars.i = 0
  · have hannounced := Display.firstPacket_announced packet m.output.display h.quote_fits
    rw [if_pos h0]
    exact h.announce packet hannounced (h.i_eq_zero.1 h0)
  · have hnext : b.next (.mouse packet) = { b with bytes := b.bytes + 1 } :=
      if_neg fun h1 => h0 (h.i_eq_zero.2 h1)
    rw [if_neg h0, hnext]
    refine ⟨h.aimed, h.terminal, h.switching, ?_, h.leftBtn, h.rightBtn, h.delay, h.rtcCount,
      h.randomizer, h.row⟩
    rw [if_neg (Nat.succ_ne_zero _), Nat.add_sub_cancel]
    exact h.next_i

/-- An interrupt of the RTC. -/
lemma rtc (h : ShowsBar old m b) {c : Cmos} {x : StatusVars × Display}
    (hx : m.output.display.rtcHandler c m.vars = some x) :
    ShowsBar old (m.handled x) (b.next (.rtc c)) := by
  have hlt : m.vars.rtcCount < 512 := h.rtcCount ▸ Nat.mod_lt _ (by norm_num)
  have hticked := Display.rtcHandler_ticked hlt hx
  have htime : (m.vars.rtcCount + 1) % 512 = (b.ticks + 1) % 512 := by
    rw [h.rtcCount]
    omega
  -- the count after the interrupt
  have hdelay : x.1.delay = match b.message.map fun x => (x.1, x.2 + 1) with
      | some (_, age) => ((1536 - age : ℕ) : ℤ)
      | none => 0 := by
    rw [hticked.vars]
    dsimp only
    rw [h.delay]
    rcases b.message with - | ⟨s, age⟩
    · rfl
    · change (if ((1536 - age : ℕ) : ℤ) > 0 then ((1536 - age : ℕ) : ℤ) - 1
        else ((1536 - age : ℕ) : ℤ)) = ((1536 - (age + 1) : ℕ) : ℤ)
      split
      · omega
      · omega
  refine ⟨h.aimed.barOnly hticked.bar, hticked.bar.drawn.visibleTerm.trans h.terminal, h.switching,
    ?_, ?_, ?_, hdelay, ?_, ?_, fun col hcol => ?_⟩
  · dsimp only [Desk.handled]
    rw [hticked.vars]
    exact h.i
  · dsimp only [Desk.handled]
    rw [hticked.vars]
    exact h.leftBtn
  · dsimp only [Desk.handled]
    rw [hticked.vars]
    exact h.rightBtn
  · dsimp only [Desk.handled]
    rw [hticked.vars]
    exact htime
  · dsimp only [Desk.handled, StatusBar.next]
    rw [hticked.vars]
    dsimp only
    rw [htime]
    split
    · rfl
    · exact h.randomizer
  · change x.2.statusByte col = _
    have hrow := h.row col hcol
    rw [StatusBar.shown] at hrow ⊢
    dsimp only [StatusBar.next]
    by_cases h10 : col < 10
    · rw [hticked.message col (by omega), if_neg (by omega), hrow]
      split
      · rfl
      · rw [if_pos (by omega), if_pos (by omega)]
    rw [if_neg (by omega), if_neg (by omega)] at hrow ⊢
    by_cases h63 : col < 63
    · rw [if_pos h63] at hrow ⊢
      rw [hticked.message col h63, hrow, hdelay]
      rcases b.message with - | ⟨s, age⟩
      · exact if_neg (by simp)
      · change (if ((1536 - (age + 1) : ℕ) : ℤ) = 1 ∧ 10 ≤ col then (0x20 : UInt8)
          else if age < 1535 then StatusBar.centred s col else 0x20) =
            if age + 1 < 1535 then StatusBar.centred s col else 0x20
        by_cases hage : age + 1 = 1535
        · rw [if_pos ⟨by omega, by omega⟩, if_neg (by omega)]
        · rw [if_neg (by omega)]
          exact if_congr (by omega) rfl rfl
    · rw [if_neg h63] at hrow ⊢
      rw [hticked.clock col hcol (by omega), htime]
      split
      · refine foldl_update_of_mem ?_
        rw [TimeVars.mem_stores]
        omega
      · exact hrow

/-- The keyboard handler switches terminals. -/
lemma switch (h : ShowsBar old m b) {t : ℕ} (haimed : Aimed (m.output.switchTo t))
    (hnone : m.output.switching = none) :
    ShowsBar old { m with output := m.output.switchTo t } (b.next (.other (.switch t))) := by
  obtain ⟨-, hterminal⟩ := h.settled hnone
  rw [StatusBar.next]
  rw [Output.switchTo, hterminal] at haimed ⊢
  by_cases hne : t = b.terminal
  · rw [if_pos hne, if_pos hne]
    exact h
  · rw [if_neg hne] at haimed
    rw [if_neg hne, if_neg hne]
    refine ⟨haimed, rfl, rfl, h.i, h.leftBtn, h.rightBtn, h.delay, h.rtcCount, h.randomizer,
      fun col hcol => ?_⟩
    exact (Display.showTerm_statusByte t _ col).trans (h.row col hcol)

/-- `term_switch` stores the number. -/
lemma number (h : ShowsBar old m b)
    (haimed : Aimed { m.output with display := m.output.display.drawStatus, switching := none }) :
    ShowsBar old
      { m with output := { m.output with display := m.output.display.drawStatus, switching := none } }
      (b.next (.other .number)) := by
  refine ⟨haimed, h.terminal, rfl, h.i, h.leftBtn, h.rightBtn, h.delay, h.rtcCount, h.randomizer,
    fun col hcol => ?_⟩
  refine (Display.drawStatus_statusByte _ col).trans ?_
  rw [h.row col hcol, h.terminal, StatusBar.shown, StatusBar.shown]
  dsimp only [StatusBar.next]
  by_cases h9 : col = 9
  · rw [if_pos h9, if_neg (by omega), if_pos h9]
  · rw [if_neg h9, if_neg h9, if_neg h9]

/-- A step of the writers. -/
lemma other (h : ShowsBar old m b) {e : OutEvent} {o : Output} (hok : DeskOk (.other e) m)
    (hs : m.output.step e = some o) : ShowsBar old { m with output := o } (b.next (.other e)) := by
  obtain ⟨hswitch, hwindow, hback, hrows⟩ := hok
  have haimed := h.aimed.step hswitch hwindow hback hs
  have hframe : o.display.frame physVidmem = m.output.display.frame physVidmem :=
    (frame_eq haimed).trans (frame_eq h.aimed).symm
  by_cases hsw : ∃ t, e = .switch t
  · obtain ⟨t, rfl⟩ := hsw
    obtain ⟨-, heff⟩ := Output.step_effect hs
    cases heff with
    | switch hen hnone ht => exact h.switch haimed hnone
  by_cases hnumber : e = .number
  · subst hnumber
    obtain ⟨-, heff⟩ := Output.step_effect hs
    cases heff with
    | number hb => exact h.number haimed
  · obtain ⟨htext, hvisible, hsame⟩ :=
      h.aimed.textOnly hback hrows hs (fun t ht => hsw ⟨t, ht⟩) hnumber
    have hb : b.next (.other e) = b := by
      cases e with
      | switch t => exact absurd ⟨t, rfl⟩ hsw
      | number => exact absurd rfl hnumber
      | _ => rfl
    rw [hb]
    refine ⟨haimed, hvisible.trans h.terminal, (congrArg Option.isSome hsame).trans h.switching, h.i,
      h.leftBtn, h.rightBtn, h.delay, h.rtcCount, h.randomizer, fun col hcol => ?_⟩
    exact (htext.statusByte hframe col).trans (h.row col hcol)

/-- **The step.** -/
lemma step (h : ShowsBar old m b) {e : DeskEvent} (hok : DeskOk e m) (hs : m.step e = some m') :
    ShowsBar old m' (b.next e) := by
  rw [Desk.step.eq_def] at hs
  cases e with
  | mouse packet =>
    obtain ⟨-, heq⟩ := Option.ite_none_right_eq_some.1 hs
    obtain rfl := Option.some.inj heq
    exact h.mouse packet
  | rtc c =>
    obtain ⟨-, heq⟩ := Option.ite_none_right_eq_some.1 hs
    obtain ⟨x, hx, rfl⟩ := Option.map_eq_some_iff.1 heq
    exact h.rtc hx
  | other e =>
    obtain ⟨o, ho, rfl⟩ := Option.map_eq_some_iff.1 hs
    exact h.other hok ho

end ShowsBar

/-- The end of `init_terms`, which sets the terminals as they are at boot. -/
lemma Display.initStatus_eq {d : Display} (hvisible : d.visibleTerm = 0)
    (hsched : d.scheduledTerm = 2) :
    d.initStatus = statusStore (9, 0x30) (d.statusPuts (text "Terminal ") 0) := by
  have hdrawn := (statusPuts_barOnly d (text "Terminal ") 0).drawn
  have hv := hdrawn.visibleTerm.trans hvisible
  have hs := hdrawn.scheduledTerm.trans hsched
  rw [initStatus]
  generalize d.statusPuts (text "Terminal ") 0 = d₁ at hv hs ⊢
  cases d₁
  dsimp only at hv hs
  subst hv hs
  rfl

/-- The row at the end of `init_terms`. -/
lemma Display.statusByte_init (d : Display) (col : ℕ) :
    (statusStore (9, 0x30) (d.statusPuts (text "Terminal ") 0)).statusByte col =
      if col < 9 then (text "Terminal ").byteAt col else if col = 9 then 0x30
      else d.statusByte col := by
  have hcstr : cstr (text "Terminal ") = text "Terminal " := by decide
  have hlength : (text "Terminal ").length = 9 := by decide
  have hputs : (d.statusPuts (text "Terminal ") 0).statusByte col =
      if 0 ≤ col ∧ col < 0 + 9 then (text "Terminal ").byteAt (col - 0) else d.statusByte col := by
    rw [statusPuts, if_neg (by decide), if_neg (by decide), statusByte_statusPutsFrom, hcstr, hlength]
  rw [statusByte_statusStore, hputs]
  by_cases h9 : col = 9
  · rw [if_pos h9, if_neg (by omega), if_pos h9]
  · rw [if_neg h9, if_neg h9, Nat.sub_zero]
    exact if_congr (by omega) rfl rfl

/-- The status bar at boot. -/
lemma showsBar_boot (l : Layout) (pg : Paging) (vram : ℕ → ℕ → UInt8) (mem : ℤ → Pcb) :
    ShowsBar (fun col => vram 0xB8 ((24 * 80 + col) * 2)) (Desk.boot l pg vram mem) .boot := by
  have haimed := aimed_boot l pg vram mem
  have hvisible : (Output.boot l pg vram mem).display.visibleTerm = 0 := rfl
  have hsched : (Output.boot l pg vram mem).display.scheduledTerm = 2 := rfl
  have hvram : (Output.boot l pg vram mem).display.vram = vram := rfl
  have hswitching : (Output.boot l pg vram mem).switching = none := rfl
  rw [Desk.boot]
  generalize Output.boot l pg vram mem = o at haimed hvisible hsched hvram hswitching ⊢
  have hframe := ShowsBar.frame_eq haimed
  have hbar : o.display.BarOnly o.display.initStatus := by
    rw [Display.initStatus_eq hvisible hsched]
    exact (Display.statusPuts_barOnly _ _ _).trans (Display.statusStore_barOnly _ _)
  refine ⟨haimed.barOnly hbar, hbar.drawn.visibleTerm.trans hvisible,
    congrArg Option.isSome hswitching, rfl, rfl, rfl, rfl, rfl, rfl, fun col _ => ?_⟩
  dsimp only
  rw [Display.initStatus_eq hvisible hsched, Display.statusByte_init, Display.statusByte, hframe,
    hvram, StatusBar.shown]
  split
  · rfl
  split
  · rfl
  split
  · rfl
  · rfl

/-- **The status bar** shows the visible terminal, the time of the last reading, and the message
for the last button that was pressed until 1535 interrupts of the RTC have come, in every run from
boot in which the writers stay aimed.  Only while `term_switch` has yet to store its number the
terminal is the one that was visible before. -/
theorem status_bar (l : Layout) (pg : Paging) (vram : ℕ → ℕ → UInt8) (mem : ℤ → Pcb)
    (es : List DeskEvent) (m : Desk)
    (h : Runs.Path Desk.step DeskOk (Desk.boot l pg vram mem) es m) :
    (∀ col < 80, m.output.display.statusByte col =
      (es.foldl StatusBar.next .boot).shown (fun col => vram 0xB8 ((24 * 80 + col) * 2)) col) ∧
    (m.output.switching = none →
      (es.foldl StatusBar.next .boot).terminal = m.output.display.visibleTerm) := by
  have hshows : ShowsBar (fun col => vram 0xB8 ((24 * 80 + col) * 2)) m
      (es.foldl StatusBar.next .boot) := by
    refine h.refines (showsBar_boot l pg vram mem) ?_
    intro e m₁ m₂ b hb hok hs
    exact hb.step hok hs
  generalize es.foldl StatusBar.next .boot = b at hshows ⊢
  exact ⟨hshows.row, fun hnone => (hshows.settled hnone).2.symm⟩

/-- The machine at boot on zero memory. -/
def sampleDesk : Desk := Desk.boot sampleLayout samplePaging (fun _ _ => 0) samplePcbs

/-- The clock, 5 seconds past 18:47 on the 29th of April 2024. -/
def sampleCmos : Cmos := ⟨0x05, 0x47, 0x18, 0x29, 0x04, 0x24⟩

/-- The first shell writes, the next terminals are booted, and a switch to the second terminal is
preempted: the first shell writes again before the number is stored.  Then a second passes, and the
right button is pressed. -/
def switchedAndPressed (c : Cmos) : List DeskEvent :=
  ([.tick, .start, .write [0x61]] ++ List.replicate 8 .run
    ++ [.tick, .start, .tick, .start, .switch 1, .tick, .write [0x62]] ++ List.replicate 8 .run
    ++ [.tick, .tick, .number] : List OutEvent).map .other
    ++ List.replicate 512 (.rtc c) ++ [.mouse 0xFA, .mouse 0x02]

/-- The row shows the second terminal, the message for the right button and the hour, 12. -/
theorem status_bar_pressed : ∃ m,
    Runs.Path Desk.step DeskOk sampleDesk (switchedAndPressed sampleCmos) m ∧
      m.output.display.visibleTerm = 1 ∧ m.output.display.statusByte 9 = 0x31 ∧
      m.output.display.statusByte 18 = 0x49 ∧ m.output.display.statusByte 73 = 0x32 := by
  have hrun : (Runs.run (Runs.guarded Desk.step DeskOk) (switchedAndPressed sampleCmos)
      sampleDesk).any (fun m => m.output.switching = none ∧ m.output.display.visibleTerm = 1)
      = true := by
    decide +kernel
  obtain ⟨m, hm, hstate⟩ := (Option.any_eq_true _ _).1 hrun
  obtain ⟨hnone, hvisible⟩ := of_decide_eq_true hstate
  have hpath := Runs.path_of_guarded hm
  obtain ⟨hrow, -⟩ := status_bar sampleLayout samplePaging (fun _ _ => 0) samplePcbs _ m hpath
  refine ⟨m, hpath, hvisible, (hrow 9 (by decide)).trans ?_, (hrow 18 (by decide)).trans ?_,
    (hrow 73 (by decide)).trans ?_⟩
  · decide +kernel
  · decide +kernel
  · decide +kernel

/-- A writer of the visible terminal is preempted after it has set the console, and the writer of
the last terminal between the `putc` of a newline in its last row and `pan`. -/
def overwriting : List OutEvent :=
  [.tick, .start, .write [0x61, 0x61]] ++ List.replicate 12 .run ++
    [.tick, .tick, .start, .write (List.replicate 24 10)] ++ List.replicate (23 * 7 + 6) .run ++
    [.tick, .run]

/-- The first writer's byte is then stored in the status bar. -/
theorem status_bar_overwritten : ∃ m,
    Runs.run Desk.step (overwriting.map .other) sampleDesk = some m ∧
      m.output.display.statusByte 0 = 0x61 := by
  have hrun : (Runs.run Desk.step (overwriting.map .other) sampleDesk).map
      (fun m => m.output.display.statusByte 0) = some 0x61 := by decide +kernel
  exact Option.map_eq_some_iff.1 hrun

end WnajOS
