import WnajOS.Terminal

/-!
# The keyboard (`kbd.c`, from the decoded byte on)

The handler stores what is typed in the line of the visible terminal and echoes it there, or
switches terminals.  `Kept` says what none of this changes: which terminal and which process
are scheduled, and the memory of the programs.
-/

namespace WnajOS

/-- `INPUT_BUFFER_SIZE`. -/
def inputBufferSize : ℕ := 128

/-- The store of a byte at an index of `buffer`.  The byte behind the array is `idx`; no store
goes further. -/
def Input.store (i : ℕ) (b : UInt8) (inp : Input) : Input :=
  if i < inputBufferSize then { inp with buffer := Function.update inp.buffer i b }
  else if i = inputBufferSize then { inp with idx := b }
  else inp

namespace Display

/-- The echo of a byte on the visible terminal. -/
def echo (chr : UInt8) (d : Display) : Except Display Display :=
  (terminalWrite 100 (some fun _ => chr) 1 d).map Prod.snd

/-- An update of the line being typed on the visible terminal. -/
def setLine (inp : Input) (d : Display) : Display :=
  let term := { d.terms d.visibleTerm with input := inp }
  { d with terms := Function.update d.terms d.visibleTerm term }

/-- The line being typed on the visible terminal. -/
def line (d : Display) : Input := (d.terms d.visibleTerm).input

/-- A byte is stored at the end of the line and echoed. -/
def typeChar (chr : UInt8) (d : Display) : Except Display Display :=
  let inp := d.line.store d.line.idx.toNat chr
  echo (inp.buffer inp.idx.toNat) (d.setLine { inp with idx := inp.idx + 1 })

/-- The loop of the tabulator key, with `n` blanks left. -/
def typeTab : ℕ → Display → Except Display Display
  | 0, d => .ok d
  | n + 1, d =>
    if d.line.idx.toNat < inputBufferSize - 2 then do typeTab n (← typeChar 0x20 d) else .ok d

/-- `send_signal`.  The process control block of the pid -1 would lie at 8 MB, where no page is. -/
def sendSignal (signum : UInt8) (d : Display) : Except Display Display :=
  let pid := if signum = 2 then (d.terms d.visibleTerm).pid else (d.terms d.scheduledTerm).pid
  if pid = -1 then .error d
  else
    let pending := d.pendingSig pid ||| 1 <<< signum
    .ok { d with pendingSig := Function.update d.pendingSig pid pending }

/-- `keyboard_handler`, with the byte of `key_to_ascii` and whether a control key is down.  It is run
without interruption, although its calls enable interrupts before it ends. -/
def keyboardHandler (control : Bool) (chr : UInt8) (d : Display) : Except Display Display :=
  if chr = 0x1B ∨ chr = 0 then .ok d
  else if chr = 0x3B ∨ chr = 0x3C ∨ chr = 0x3D then .ok (termSwitch (chr.toNat - 0x3B) d)
  else if chr = 10 then do
    let d ← typeChar chr d
    return d.setLine { d.line with eol := true }
  else if chr = 9 then typeTab 4 d
  else if chr = 8 ∨ chr = 127 then
    if d.line.idx ≠ 0 then
      let idx := d.line.idx - 1
      let buffer := Function.update d.line.buffer idx.toNat 0x20
      echo 8 (d.setLine { d.line with buffer := buffer, idx := idx })
    else .ok d
  else if control ∧ (chr = 0x6C ∨ chr = 0x4C) then .ok (clearPhysScreen d)
  else if control ∧ (chr = 0x63 ∨ chr = 0x43) then sendSignal 2 d
  else if d.line.idx.toNat < inputBufferSize - 2 then typeChar chr d
  else .ok d

/-! ### What typing leaves alone -/

/-- `d'` differs from `d` as it may after any writes, keys and switches: the page directory is
the same, and in the page tables at most the entry of video memory was patched. -/
structure Kept (d d' : Display) : Prop where
  scheduledTerm : d'.scheduledTerm = d.scheduledTerm
  pid : ∀ t, (d'.terms t).pid = (d.terms t).pid
  pageDirectory : d'.paging.pageDirectory = d.paging.pageDirectory
  userVidmapTable : d'.paging.userVidmapTable = d.paging.userVidmapTable
  pageTable0 : d'.paging.pageTable0 = d.paging.pageTable0 ∨
    d'.paging.pageTable0 = setPteAddr videoMemAddr (0xB9 + d.scheduledTerm) d.paging.pageTable0

namespace Kept

variable {d d' d'' : Display}

lemma refl (d : Display) : Kept d d := ⟨rfl, fun _ => rfl, rfl, rfl, Or.inl rfl⟩

lemma trans (h : Kept d d') (h' : Kept d' d'') : Kept d d'' := by
  refine ⟨h'.scheduledTerm.trans h.scheduledTerm, fun t => (h'.pid t).trans (h.pid t),
    h'.pageDirectory.trans h.pageDirectory, h'.userVidmapTable.trans h.userVidmapTable, ?_⟩
  have hpatch := h'.pageTable0
  rw [h.scheduledTerm] at hpatch
  rcases h.pageTable0 with h0 | h0
  · rwa [h0] at hpatch
  · rw [h0] at hpatch
    rcases hpatch with h1 | h1
    · exact Or.inr h1
    · -- the same entry patched twice
      refine Or.inr (h1.trans ?_)
      simp only [setPteAddr, Function.update_self, Function.update_idem]

lemma of_drawn (h : Drawn d d') : Kept d d' :=
  ⟨h.scheduledTerm, h.pid, by rw [h.paging], by rw [h.paging], Or.inl (by rw [h.paging])⟩

end Kept

/-- A fallible operation ends, or faults, in a display that differs as `Kept` says. -/
def Keeps (d : Display) : Except Display Display → Prop
  | .ok d' => Kept d d'
  | .error d' => Kept d d'

lemma Kept.keeps {d d' : Display} {r : Except Display Display} (h : Kept d d')
    (hr : Keeps d' r) : Keeps d r := by
  cases r with
  | error d'' => exact h.trans hr
  | ok d'' => exact h.trans hr

lemma Keeps.bind {d : Display} {r : Except Display Display}
    {f : Display → Except Display Display} (h : Keeps d r) (hf : ∀ d', Keeps d' (f d')) :
    Keeps d (r >>= f) := by
  cases r with
  | error d' => exact h
  | ok d' => exact Kept.keeps h (hf d')

lemma writePatch_kept (d : Display) : Kept d d.writePatch := by
  rw [writePatch]
  split
  · exact ⟨rfl, fun _ => rfl, rfl, rfl, Or.inr rfl⟩
  · exact Kept.refl d

/-- An echo draws on the patched display. -/
lemma echo_draws (chr : UInt8) (d : Display) : Draws d.writePatch (echo chr d) := by
  obtain ⟨herr, hok⟩ := terminalWrite_drawn 100 (some fun _ => chr) 1 d
  rw [echo]
  cases hw : terminalWrite 100 (some fun _ => chr) 1 d with
  | error d' => exact herr d' hw
  | ok x => exact hok x.1 x.2 hw

lemma echo_keeps (chr : UInt8) (d : Display) : Keeps d (echo chr d) := by
  have hdraws := echo_draws chr d
  cases hecho : echo chr d with
  | error d' =>
    rw [hecho] at hdraws
    exact (writePatch_kept d).trans (.of_drawn hdraws)
  | ok d' =>
    rw [hecho] at hdraws
    exact (writePatch_kept d).trans (.of_drawn hdraws)

lemma println_keeps (msg : Str) (d : Display) : Keeps d (println msg d) := by
  obtain ⟨herr, hok⟩ := terminalWrite_drawn 100 (some msg.byteAt) (Int32.ofNat (strlen msg)) d
  rw [println]
  cases hw : terminalWrite 100 (some msg.byteAt) (Int32.ofNat (strlen msg)) d with
  | error d' => exact (writePatch_kept d).trans (.of_drawn (herr d' hw))
  | ok x => exact (writePatch_kept d).trans (.of_drawn (hok x.1 x.2 hw))

lemma setLine_kept (inp : Input) (d : Display) : Kept d (d.setLine inp) := by
  refine ⟨rfl, fun t => ?_, rfl, rfl, Or.inl rfl⟩
  by_cases ht : t = d.visibleTerm
  · subst ht
    simp only [setLine, Function.update_self]
  · simp only [setLine, Function.update_of_ne ht]

lemma typeChar_keeps (chr : UInt8) (d : Display) : Keeps d (typeChar chr d) := by
  rw [typeChar]
  exact (setLine_kept _ d).keeps (echo_keeps _ _)

lemma typeTab_keeps (n : ℕ) (d : Display) : Keeps d (typeTab n d) := by
  induction n generalizing d with
  | zero => exact Kept.refl d
  | succ n ih =>
    rw [typeTab]
    split
    · exact (typeChar_keeps 0x20 d).bind ih
    · exact Kept.refl d

lemma clearPhysScreen_kept (d : Display) : Kept d d.clearPhysScreen :=
  ⟨rfl, fun _ => rfl, rfl, rfl, Or.inl rfl⟩

/-- Nothing that the terminals show or that is typed on them changes. -/
lemma sendSignal_cases (signum : UInt8) (d : Display) : sendSignal signum d = .error d ∨
    ∃ pending, sendSignal signum d = .ok { d with pendingSig := pending } := by
  rw [sendSignal]
  generalize (if signum = 2 then (d.terms d.visibleTerm).pid
    else (d.terms d.scheduledTerm).pid) = pid
  by_cases hpid : pid = -1
  · exact Or.inl (if_pos hpid)
  · exact Or.inr ⟨_, if_neg hpid⟩

lemma sendSignal_keeps (signum : UInt8) (d : Display) : Keeps d (sendSignal signum d) := by
  rcases sendSignal_cases signum d with heq | ⟨pending, heq⟩
  · rw [heq]
    exact Kept.refl d
  · rw [heq]
    exact ⟨rfl, fun _ => rfl, rfl, rfl, Or.inl rfl⟩

lemma termSwitch_kept (t : ℕ) (d : Display) : Kept d (d.termSwitch t) := by
  rw [termSwitch]
  split
  · exact Kept.refl d
  · exact ⟨rfl, fun _ => rfl, rfl, rfl, Or.inl rfl⟩

/-- **What a key can change.** -/
theorem keyboardHandler_keeps (control : Bool) (chr : UInt8) (d : Display) :
    Keeps d (keyboardHandler control chr d) := by
  rw [keyboardHandler]
  split
  · exact Kept.refl d
  split
  · exact termSwitch_kept _ d
  split
  · exact (typeChar_keeps chr d).bind fun d' => setLine_kept _ d'
  split
  · exact typeTab_keeps 4 d
  split
  · split
    · exact (setLine_kept _ d).keeps (echo_keeps 8 _)
    · exact Kept.refl d
  split
  · exact clearPhysScreen_kept d
  split
  · exact sendSignal_keeps 2 d
  split
  · exact typeChar_keeps chr d
  · exact Kept.refl d

end Display

end WnajOS
