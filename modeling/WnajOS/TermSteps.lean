import WnajOS.ProcessSteps
import WnajOS.Screens

/-!
# What one step can do to the terminals

A key, a `terminal_write`, a text of `report_error` and a `terminal_read` that returns change the line
or the cursor of a terminal, and nothing else does.  `step_terms` says so once.
-/

namespace WnajOS

namespace Display

/-- However an operation ends, the terminals, the visible one and the paging structures are the
same. -/
def KeepsTerms (d : Display) : Except Display Display → Prop
  | .ok d' => d'.terms = d.terms ∧ d'.visibleTerm = d.visibleTerm ∧ d'.paging = d.paging
  | .error d' => d'.terms = d.terms ∧ d'.visibleTerm = d.visibleTerm ∧ d'.paging = d.paging

lemma KeepsTerms.bind {d : Display} {r : Except Display Display}
    {f : Display → Except Display Display} (h : KeepsTerms d r) (hf : ∀ d', KeepsTerms d' (f d')) :
    KeepsTerms d (r >>= f) := by
  cases r with
  | error d' => exact h
  | ok d' =>
    have hf' := hf d'
    obtain ⟨ht, hv, hp⟩ := h
    change KeepsTerms d (f d')
    cases hr : f d' with
    | error d'' =>
      rw [hr] at hf'
      exact ⟨hf'.1.trans ht, hf'.2.1.trans hv, hf'.2.2.trans hp⟩
    | ok d'' =>
      rw [hr] at hf'
      exact ⟨hf'.1.trans ht, hf'.2.1.trans hv, hf'.2.2.trans hp⟩

lemma poke_keepsTerms (d : Display) (va : ℕ) (b : UInt8) : KeepsTerms d (d.poke va b) := by
  rw [poke]
  dsimp only
  split
  · exact ⟨rfl, rfl, rfl⟩
  · exact ⟨rfl, rfl, rfl⟩

lemma putcAt_keepsTerms (video : ℕ) (c color : UInt8) (d : Display) :
    KeepsTerms d (putcAt video c color d) := by
  rw [putcAt]
  split
  · exact ⟨rfl, rfl, rfl⟩
  split
  · exact ⟨rfl, rfl, rfl⟩
  split
  · exact ⟨rfl, rfl, rfl⟩
  refine (poke_keepsTerms d _ c).bind fun d₁ => ?_
  refine (poke_keepsTerms d₁ _ color).bind fun d₂ => ?_
  exact ⟨rfl, rfl, rfl⟩

lemma puts_keepsTerms (cs : List UInt8) (d : Display) : KeepsTerms d (d.puts cs) := by
  induction cs generalizing d with
  | nil => exact ⟨rfl, rfl, rfl⟩
  | cons c cs ih => exact (putcAt_keepsTerms _ _ _ d).bind ih

/-- `terminal_write` of the scheduled process, as the display after it. -/
def writeTerm (cs : List UInt8) (d : Display) : Except Display Display :=
  (writeLoop false d.writePatch.scheduledTerm cs d.writePatch).map fun d' =>
    if d'.scheduledTerm = d'.visibleTerm then d'.updateCursor d.writePatch.scheduledTerm else d'

/-- It ends as its loop does; what comes after the loop changes neither the terminals nor the
paging structures nor video memory. -/
lemma writeTerm_ends {cs : List UInt8} {d d' : Display}
    (h : d.writeTerm cs = .ok d' ∨ d.writeTerm cs = .error d') :
    ∃ d₁, (d.writePatch.writeLoop false d.writePatch.scheduledTerm cs = .ok d₁ ∨
        d.writePatch.writeLoop false d.writePatch.scheduledTerm cs = .error d₁) ∧
      d'.terms = d₁.terms ∧ d'.paging = d₁.paging ∧ d'.vram = d₁.vram := by
  rw [writeTerm] at h
  cases hr : d.writePatch.writeLoop false d.writePatch.scheduledTerm cs with
  | error d₁ =>
    rw [hr] at h
    rcases h with h | h
    · exact absurd h (by simp [Except.map])
    · obtain rfl := Except.error.inj h
      exact ⟨d₁, Or.inr rfl, rfl, rfl, rfl⟩
  | ok d₁ =>
    rw [hr] at h
    rcases h with h | h
    · refine ⟨d₁, Or.inl rfl, ?_⟩
      rw [← Except.ok.inj h]
      dsimp only
      split
      · exact ⟨rfl, rfl, rfl⟩
      · exact ⟨rfl, rfl, rfl⟩
    · exact absurd h (by simp [Except.map])

/-- `terminal_write` of a handler to the visible terminal, as the display after it. -/
def showText (cs : List UInt8) (d : Display) : Except Display Display :=
  (writeLoop true d.visibleTerm cs d.writePatch).map (updateCursor d.visibleTerm)

lemma showText_drawn {cs : List UInt8} {d d' : Display}
    (h : d.showText cs = .ok d' ∨ d.showText cs = .error d') : Drawn d.writePatch d' := by
  have hdraws := writeLoop_draws true d.visibleTerm cs d.writePatch
  rw [showText] at h
  cases hr : d.writePatch.writeLoop true d.visibleTerm cs with
  | error d₁ =>
    rw [hr] at h hdraws
    rcases h with h | h
    · exact absurd h (by simp [Except.map])
    · obtain rfl := Except.error.inj h
      exact hdraws
  | ok d₁ =>
    rw [hr] at h hdraws
    rcases h with h | h
    · obtain rfl := Except.ok.inj h
      exact Drawn.trans hdraws (updateCursor_drawn _ d₁)
    · exact absurd h (by simp [Except.map])

lemma terminalWrite_visible (buf : Buf) (nbytes : Int32) (d : Display) :
    (d.terminalWrite 100 (some buf) nbytes).map Prod.snd =
      d.showText ((List.range nbytes.toInt.toNat).map buf) := by
  rw [terminalWrite_run, showText, writeTarget, if_pos rfl, writePatch_visibleTerm]
  simp only [decide_true, true_or, if_true]
  cases writeLoop true d.visibleTerm ((List.range nbytes.toInt.toNat).map buf) d.writePatch
  · rfl
  · rfl

lemma echo_eq_showText (c : UInt8) (d : Display) : d.echo c = d.showText [c] :=
  terminalWrite_visible (fun _ => c) 1 d

/-- `report_error` prints the whole of a text. -/
lemma println_report (e : Exception) (n : ℕ) (d : Display) :
    d.println (e.report n) = d.showText (e.report n) := by
  obtain ⟨hlen, hchars⟩ := e.report_printed n
  have hstr : strlen (e.report n) = (e.report n).length :=
    congrArg List.length (cstr_eq_self fun h0 => (hchars 0 h0).1 rfl)
  have hsize : (Int32.ofNat (e.report n).length).toInt.toNat = (e.report n).length := by
    rw [Int32.toInt_ofNat_of_lt (by omega)]
    exact Int.toNat_natCast _
  rw [println, terminalWrite_visible, hstr, hsize, range_map_byteAt _ le_rfl, List.take_length]

end Display

/-! ### Calls -/

/-- The lines, the cursors and the visible terminal are the same, and the page tables map the
screens if they did. -/
structure SameTerms (k k' : Kernel) : Prop where
  visibleTerm : k'.visibleTerm = k.visibleTerm
  input : ∀ t, (k'.terms t).input = (k.terms t).input
  cursor : ∀ t, (k'.terms t).cursor = (k.terms t).cursor
  tables : Display.VideoTables k.paging → Display.VideoTables k'.paging

namespace SameTerms

variable {k k' k'' : Kernel}

lemma refl (k : Kernel) : SameTerms k k := ⟨rfl, fun _ => rfl, fun _ => rfl, id⟩

lemma trans (h : SameTerms k k') (h' : SameTerms k' k'') : SameTerms k k'' :=
  ⟨h'.visibleTerm.trans h.visibleTerm, fun t => (h'.input t).trans (h.input t),
    fun t => (h'.cursor t).trans (h.cursor t), fun ht => h'.tables (h.tables ht)⟩

lemma of_terms (ht : k'.terms = k.terms) (hv : k'.visibleTerm = k.visibleTerm)
    (h0 : k'.paging.pageTable0 = k.paging.pageTable0)
    (hu : k'.paging.userVidmapTable = k.paging.userVidmapTable) : SameTerms k k' := by
  refine ⟨hv, fun t => by rw [ht], fun t => by rw [ht], fun h => ?_⟩
  constructor
  · exact h0 ▸ h.fixed
  · exact h0 ▸ h.back
  · exact h0 ▸ h.kernel
  · exact hu ▸ h.program

lemma of_keeps {d : Display} (h : d.terms = k.terms ∧ d.visibleTerm = k.visibleTerm ∧
    d.paging = k.paging) : SameTerms k { k with toDisplay := d } := by
  obtain ⟨ht, hv, hp⟩ := h
  exact of_terms ht hv (congrArg Paging.pageTable0 hp) (congrArg Paging.userVidmapTable hp)

lemma writePatch (k : Kernel) : SameTerms k { k with toDisplay := k.toDisplay.writePatch } := by
  have htables := fun h => Display.VideoTables.writePatch (d := k.toDisplay) h
  obtain ⟨table, heq, -⟩ := Display.writePatch_eq k.toDisplay
  rw [heq] at htables ⊢
  exact ⟨rfl, fun _ => rfl, fun _ => rfl, htables⟩

end SameTerms

/-- The line that a call reads: the buffer and the size of a `terminal_read`. -/
def Kernel.lineRead? (k : Kernel) : Call → Option (Buf × Int32)
  | .read fd (some buf) nbytes =>
    if fd < 0 ∨ fd ≥ 8 ∨ nbytes < 0 ∨ (k.pcb.fdArr (fdIndex fd)).flags = 0 then none
    else if (k.pcb.fdArr (fdIndex fd)).fileOps = some .stdin then some (buf, nbytes) else none
  | _ => none

/-- The bytes that a call writes to its terminal. -/
def Kernel.written? (k : Kernel) : Call → Option (List UInt8)
  | .write fd (some buf) nbytes =>
    if fd < 0 ∨ fd ≥ 8 ∨ nbytes < 0 ∨ (k.pcb.fdArr (fdIndex fd)).flags = 0 then none
    else if (k.pcb.fdArr (fdIndex fd)).fileOps = some .stdout then
      some ((List.range nbytes.toInt.toNat).map buf)
    else none
  | _ => none

section Calls

variable (img : Image) (k : Kernel)

lemma driverRead_terms (fd : Int32) (buf : Buf) (nbytes : Int32)
    (h : (k.pcb.fdArr (fdIndex fd)).fileOps ≠ some .stdin) :
    (driverRead img k fd buf nbytes).Leads (fun x => x.2.2) (SameTerms k) := by
  rw [driverRead]
  split
  · exact SameTerms.refl k
  · rename_i hops
    exact absurd hops h
  · exact SameTerms.refl k
  · exact SameTerms.of_terms rfl rfl rfl rfl
  · exact SameTerms.of_terms rfl rfl rfl rfl
  · split
    · exact SameTerms.refl k
    · exact SameTerms.of_terms rfl rfl rfl rfl

lemma syscallOpen_terms (filename : Str) :
    (syscallOpen img k filename).Leads (fun x => x.2) (SameTerms k) := by
  rw [syscallOpen]
  split
  · exact SameTerms.refl k
  rename_i d hname
  split
  · exact SameTerms.refl k
  rename_i m hm
  have hends : Ends (SameTerms k) (openAt k m d) := by
    rw [openAt]
    dsimp only
    have hdriver : ∀ (k' : Kernel) (ops : Option Driver), SameTerms k k' →
        Ends (SameTerms k) (driverOpen k' ops) := by
      intro k' ops h
      rw [driverOpen.eq_def]
      split <;> exact h.trans (.of_terms rfl rfl rfl rfl)
    split
    · -- the message about a strange file type draws on the cleared screen
      generalize hk' : k.setFds _ = k'
      have hsame : SameTerms k k' := by
        rw [← hk']
        exact .of_terms rfl rfl rfl rfl
      have hkeeps := Display.puts_keepsTerms (strangeText d.fileType) k'.toDisplay.clear
      rw [Kernel.complain]
      cases hp : k'.toDisplay.clear.puts (strangeText d.fileType) with
      | error d' =>
        rw [hp] at hkeeps
        exact hsame.trans (.of_keeps hkeeps)
      | ok d' =>
        rw [hp] at hkeeps
        exact hdriver _ _ (hsame.trans (.of_keeps hkeeps))
    · exact hdriver _ _ (.of_terms rfl rfl rfl rfl)
  split
  · rename_i k' hk'
    rw [hk'] at hends
    exact hends
  · rename_i k' hk'
    rw [hk'] at hends
    exact hends

lemma syscallClose_terms (fd : Int32) :
    (syscallClose k fd).Leads (fun x => x.2) (SameTerms k) := by
  rw [syscallClose]
  split
  · exact SameTerms.refl k
  · dsimp only
    split
    · exact SameTerms.of_terms rfl rfl rfl rfl
    · exact SameTerms.of_terms rfl rfl rfl rfl

lemma driverWrite_terms (fd : Int32) (buf : Buf) (nbytes : Int32)
    (h : (k.pcb.fdArr (fdIndex fd)).fileOps ≠ some .stdout) :
    (driverWrite k fd buf nbytes).Leads (fun x => x.2) (SameTerms k) := by
  rw [driverWrite]
  split
  · exact SameTerms.refl k
  · exact SameTerms.refl k
  · rename_i hops
    exact absurd hops h
  · exact SameTerms.refl k
  · exact SameTerms.refl k
  · exact SameTerms.of_terms rfl rfl rfl rfl

/-- A call that neither reads a line nor writes to its terminal. -/
lemma call_terms (c : Call) (hr : k.lineRead? c = none) (hw : k.written? c = none) :
    (k.call img c).Leads (fun x => x.2) (SameTerms k) := by
  cases c with
  | openFile filename => exact syscallOpen_terms img k filename
  | close fd => exact syscallClose_terms k fd
  | write fd buf nbytes =>
    cases buf with
    | none => exact SameTerms.refl k
    | some buf =>
      rw [Kernel.call, syscallWrite.eq_def]
      dsimp only
      rw [Kernel.written?] at hw
      split
      · exact SameTerms.refl k
      · rename_i hok
        rw [if_neg hok] at hw
        refine driverWrite_terms k fd buf nbytes fun hops => ?_
        rw [if_pos hops] at hw
        exact absurd hw (by simp)
  | read fd buf nbytes =>
    cases buf with
    | none => exact SameTerms.refl k
    | some buf =>
      rw [Kernel.call, syscallRead.eq_def]
      dsimp only
      rw [Kernel.lineRead?] at hr
      split
      · exact SameTerms.refl k
      · rename_i hok
        rw [if_neg hok] at hr
        have hterms := driverRead_terms img k fd buf nbytes fun hops => by
          rw [if_pos hops] at hr
          exact absurd hr (by simp)
        cases hdr : driverRead img k fd buf nbytes with
        | done x =>
          rw [hdr] at hterms
          exact hterms
        | waits => trivial
        | fault k' =>
          rw [hdr] at hterms
          exact hterms

/-- A call that reads a line waits until one is entered, then hands it out and empties it. -/
lemma call_of_lineRead {c : Call} {buf : Buf} {nbytes : Int32}
    (h : k.lineRead? c = some (buf, nbytes)) : 0 ≤ nbytes.toInt ∧
      k.call img c = if (k.terms k.scheduledTerm).input.eol then
        .done ((terminalRead (k.terms k.scheduledTerm).input buf nbytes).1,
          k.setInput (terminalRead (k.terms k.scheduledTerm).input buf nbytes).2.2) else .waits := by
  cases c with
  | read fd b n =>
    cases b with
    | none => exact absurd h (by simp [Kernel.lineRead?])
    | some b =>
      rw [Kernel.lineRead?] at h
      split at h
      · exact absurd h (by simp)
      · rename_i hok
        split at h
        · rename_i hops
          obtain ⟨rfl, rfl⟩ := Prod.mk.inj (Option.some.inj h)
          constructor
          · have hn : ¬n < 0 := fun hneg => hok (Or.inr (Or.inr (Or.inl hneg)))
            exact Int32.le_iff_toInt_le.1 (Int32.not_lt.1 hn)
          · rw [Kernel.call, syscallRead.eq_def]
            dsimp only
            rw [if_neg hok, driverRead, hops]
            dsimp only
            split
            · rfl
            · rfl
        · exact absurd h (by simp)
  | _ => exact absurd h (by simp [Kernel.lineRead?])

/-- A call that writes to its terminal leaves the display of `terminal_write`. -/
lemma call_of_written {c : Call} {cs : List UInt8} (h : k.written? c = some cs) :
    (k.call img c).Leads (fun x => x.2) (fun k' =>
      k.toDisplay.writeTerm cs = .ok k'.toDisplay ∨
        k.toDisplay.writeTerm cs = .error k'.toDisplay) := by
  cases c with
  | write fd b n =>
    cases b with
    | none => exact absurd h (by simp [Kernel.written?])
    | some b =>
      rw [Kernel.written?] at h
      split at h
      · exact absurd h (by simp)
      · rename_i hok
        split at h
        · rename_i hops
          obtain rfl := Option.some.inj h
          have hfd : fd ≠ 100 := by
            rintro rfl
            exact hok (Or.inr (Or.inl (by decide)))
          rw [Kernel.call, syscallWrite.eq_def]
          dsimp only
          rw [if_neg hok, driverWrite, hops]
          dsimp only
          rw [Output.terminalWrite_eq k.toDisplay hfd, Display.writeTerm]
          cases k.toDisplay.writePatch.writeLoop false k.toDisplay.writePatch.scheduledTerm
            ((List.range n.toInt.toNat).map b) with
          | error d => exact Or.inr rfl
          | ok d => exact Or.inl rfl
        · exact absurd h (by simp)
  | _ => exact absurd h (by simp [Kernel.written?])

end Calls

/-! ### Steps -/

/-- The line that an event reads. -/
def Event.lineRead? (e : Event) (k : Kernel) : Option (Buf × Int32) :=
  (e.call? k).bind k.lineRead?

/-- The bytes that an event writes to the scheduled terminal. -/
def Event.written? (e : Event) (k : Kernel) : Option (List UInt8) :=
  (e.call? k).bind k.written?

/-- The text that `report_error` prints on the visible terminal in an event. -/
def Event.printed? (e : Event) (k : Kernel) : Option Str :=
  match e with
  | .report => k.ctl.point.reports?.map fun x => x.2.1.report x.2.2
  | _ => none

/-- A call of a process prints no such text. -/
lemma Event.printed?_of_call {α : Type} {e : Event} {k : Kernel} {f : Call → Option α} {x : α}
    (h : (e.call? k).bind f = some x) : e.printed? k = none := by
  cases e with
  | report => exact absurd h (by simp [Event.call?])
  | _ => rfl

/-- The event is a key. -/
def Event.isKey : Event → Bool
  | .key _ _ => true
  | _ => false

/-- What one step can do to the terminals. -/
inductive TermEffect (k : Kernel) (e : Event) (k' : Kernel) : Prop
  | key {control : Bool} {chr : UInt8} (he : e = .key control chr)
      (h : k.toDisplay.keyboardHandler control chr = .ok k'.toDisplay ∨
        k.toDisplay.keyboardHandler control chr = .error k'.toDisplay) : TermEffect k e k'
  | read {buf : Buf} {nbytes : Int32} (hkey : e.isKey = false)
      (he : e.lineRead? k = some (buf, nbytes)) (hw : e.written? k = none)
      (hn : 0 ≤ nbytes.toInt) (heol : (k.terms k.scheduledTerm).input.eol = true)
      (h : k'.toDisplay =
        (k.setInput (terminalRead (k.terms k.scheduledTerm).input buf nbytes).2.2).toDisplay) :
      TermEffect k e k'
  | write {cs : List UInt8} (hkey : e.isKey = false) (he : e.written? k = some cs)
      (hr : e.lineRead? k = none)
      (h : k.toDisplay.writeTerm cs = .ok k'.toDisplay ∨
        k.toDisplay.writeTerm cs = .error k'.toDisplay) : TermEffect k e k'
  | report {cs : Str} (he : e = .report) (hprinted : e.printed? k = some cs)
      (hclean : ∀ c ∈ cs, c ≠ 0 ∧ c ≠ 8)
      (h : k.toDisplay.showText cs = .ok k'.toDisplay ∨
        k.toDisplay.showText cs = .error k'.toDisplay) : TermEffect k e k'
  | kept (hkey : e.isKey = false) (hr : e.lineRead? k = none) (hw : e.written? k = none)
      (hprinted : e.printed? k = none) (h : SameTerms k k') : TermEffect k e k'

section Steps

variable {img : Image} {k k' : Kernel} {e : Event}

lemma setCur_terms (k : Kernel) (p : ℤ) : SameTerms k (k.setCur p) := by
  refine ⟨rfl, fun t => ?_, fun t => ?_, id⟩
  · by_cases ht : t = k.scheduledTerm
    · subst ht
      simp only [Kernel.setCur, Function.update_self]
    · simp only [Kernel.setCur, Function.update_of_ne ht]
  · by_cases ht : t = k.scheduledTerm
    · subst ht
      simp only [Kernel.setCur, Function.update_self]
    · simp only [Kernel.setCur, Function.update_of_ne ht]

lemma createProcess_terms (k : Kernel) (i : ℤ) (caller : Caller) (args : Buf) :
    SameTerms k ((k.allocate i).createProcess i caller args) := by
  have hallocate : SameTerms k { k.allocate i with thisPcb := pcbAddr i } := .of_terms rfl rfl rfl rfl
  have hcur := setCur_terms { k.allocate i with thisPcb := pcbAddr i } i
  exact (hallocate.trans hcur).trans (.of_terms rfl rfl rfl rfl)

lemma haltFinish_terms (k : Kernel) : SameTerms k k.haltFinish := by
  have hclosing : ∀ fds, SameTerms k (k.haltClosing.setFds fds) := by
    intro fds
    have hpid : SameTerms k { k with currentPid := k.pcb.parentId } := .of_terms rfl rfl rfl rfl
    have hcur := setCur_terms { k with currentPid := k.pcb.parentId } k.pcb.parentId
    exact (hpid.trans hcur).trans (.of_terms rfl rfl rfl rfl)
  obtain ⟨fds, hends⟩ := closeFrom_setFds 6 2 k.haltClosing
  rw [haltFinish_eq]
  cases hclose : closeFrom 6 2 k.haltClosing with
  | error k₁ =>
    rw [hclose] at hends
    obtain rfl : k₁ = k.haltClosing.setFds fds := hends
    exact (hclosing fds).trans (.of_terms rfl rfl rfl rfl)
  | ok k₁ =>
    rw [hclose] at hends
    obtain rfl : k₁ = k.haltClosing.setFds fds := hends
    exact (hclosing fds).trans (.of_terms rfl rfl rfl rfl)

lemma syscallHalt_terms (k : Kernel) : SameTerms k k.syscallHalt := by
  rw [Kernel.syscallHalt]
  dsimp only
  split
  · exact .of_terms rfl rfl rfl rfl
  · have hthis : SameTerms k { k with thisPcb := pcbAddr k.cur } := .of_terms rfl rfl rfl rfl
    exact hthis.trans (haltFinish_terms _)

lemma pitHandler_terms (k : Kernel) : SameTerms k k.pitHandler := by
  obtain ⟨hdisp, -⟩ := saveContext_fields k
  have hadv := Display.pitAdvance_advanced k.saveContext.toDisplay
  rw [hdisp] at hadv
  have hterms : ∀ k₁ : Kernel, k₁.terms = k.toDisplay.pitAdvance.terms →
      k₁.visibleTerm = k.toDisplay.pitAdvance.visibleTerm →
      k₁.paging.pageTable0 = k.toDisplay.pitAdvance.paging.pageTable0 →
      k₁.paging.userVidmapTable = k.toDisplay.pitAdvance.paging.userVidmapTable →
      SameTerms k k₁ := by
    intro k₁ ht hv h0 hu
    rw [hadv.terms] at ht
    rw [hadv.visibleTerm] at hv
    refine ⟨hv, fun t => by rw [ht], fun t => by rw [ht], fun h => ?_⟩
    have hset := h.setAddr (k.toDisplay.screenPage k.toDisplay.pitAdvance.scheduledTerm)
      (k.toDisplay.screenPage k.toDisplay.pitAdvance.scheduledTerm)
    rw [hadv.paging] at h0 hu
    constructor
    · exact h0 ▸ hset.fixed
    · exact h0 ▸ hset.back
    · exact h0 ▸ hset.kernel
    · exact hu ▸ hset.program
  rw [Kernel.pitHandler, Kernel.switchContext]
  dsimp only
  rw [← hdisp] at hterms
  split
  · exact hterms _ rfl rfl rfl rfl
  · exact hterms _ rfl rfl rfl rfl

/-- A call of `syscall_execute`. -/
lemma startStep_terms {caller : Caller} {command : Str} {buf : Buf} {failed : Kernel} {fault : Ctl}
    (hfailed : SameTerms k failed)
    (hs : startStep img k caller command buf failed fault = some k') : SameTerms k k' := by
  have hex := executed img k caller command buf
  rw [startStep] at hs
  generalize syscallExecute img k caller command buf = r at hs hex
  cases hex with
  | fails =>
    obtain rfl := Option.some.inj hs
    exact hfailed
  | starts =>
    obtain rfl := Option.some.inj hs
    exact createProcess_terms k _ caller _
  | faults =>
    obtain rfl := Option.some.inj hs
    exact .of_terms rfl rfl rfl rfl

/-- A call reads a line or writes, but not both. -/
lemma written_of_lineRead {c : Call} {x : Buf × Int32} (h : k.lineRead? c = some x) :
    k.written? c = none := by
  cases c with
  | write fd buf nbytes => exact absurd h (by simp [Kernel.lineRead?])
  | _ => rfl

/-- The end of a call. -/
lemma endCall_terms {p : ℤ} {c : Call} (he : e.call? k = some c) (hkey : e.isKey = false)
    (hprinted : e.printed? k = none) (hs : endCall p c k (k.call img c) = some k') :
    TermEffect k e k' := by
  have hread : e.lineRead? k = k.lineRead? c := by rw [Event.lineRead?, he, Option.bind_some]
  have hwritten : e.written? k = k.written? c := by rw [Event.written?, he, Option.bind_some]
  -- the state that the call leads to, with the display it leaves
  have hends : ∀ P : Kernel → Prop, (∀ k₁ ctl, P k₁ → P { k₁ with ctl := ctl }) →
      (k.call img c).Leads (fun x => x.2) P → P k' := by
    intro P hctl hleads
    cases hc : k.call img c with
    | done x =>
      rw [hc] at hs hleads
      obtain rfl := Option.some.inj hs
      exact hctl _ _ hleads
    | waits =>
      rw [hc] at hs
      exact absurd hs (by simp [endCall])
    | fault k₁ =>
      rw [hc] at hs hleads
      obtain rfl := Option.some.inj hs
      exact hctl _ _ hleads
  cases hline : k.lineRead? c with
  | none =>
    cases hw : k.written? c with
    | none =>
      refine .kept hkey (hread.trans hline) (hwritten.trans hw) hprinted ?_
      refine hends (SameTerms k) (fun k₁ ctl h => ?_) (call_terms img k c hline hw)
      exact h.trans (.of_terms rfl rfl rfl rfl)
    | some cs =>
      refine .write hkey (hwritten.trans hw) (hread.trans hline) ?_
      refine hends (fun k₁ => k.toDisplay.writeTerm cs = .ok k₁.toDisplay ∨
        k.toDisplay.writeTerm cs = .error k₁.toDisplay) ?_ (call_of_written img k hw)
      exact fun _ _ h => h
  | some x =>
    obtain ⟨buf, nbytes⟩ := x
    obtain ⟨hn, hcall⟩ := call_of_lineRead img k hline
    rw [hcall] at hs
    split at hs
    · rename_i heol
      obtain rfl := Option.some.inj hs
      exact .read hkey (hread.trans hline) (hwritten.trans (written_of_lineRead hline)) hn heol rfl
    · exact absurd hs (by simp [endCall])

/-- **What one step can do to the terminals.** -/
theorem step_terms (hs : step img e k = some k') : TermEffect k e k' := by
  cases step_cases hs with
  | tick => exact .kept rfl rfl rfl rfl (pitHandler_terms k)
  | @key control chr _ _ hs =>
    refine .key rfl ?_
    obtain ⟨d, ⟨hr, rfl⟩ | ⟨hr, p, -, rfl⟩⟩ := keyStep_eq_some hs
    · exact Or.inl hr
    · exact Or.inr hr
  | raise hs =>
    obtain ⟨p, -, rfl⟩ := raiseStep_eq_some hs
    exact .kept rfl rfl rfl rfl (.of_terms rfl rfl rfl rfl)
  | execute _ hs => exact .kept rfl rfl rfl rfl (startStep_terms (SameTerms.refl k) hs)
  | bootExec _ hs =>
    have hfailed : SameTerms k { k with ctl := ⟨.lost, 0⟩ } := .of_terms rfl rfl rfl rfl
    exact .kept rfl rfl rfl rfl (startStep_terms hfailed hs)
  | restartExec _ hs => exact .kept rfl rfl rfl rfl (startStep_terms (haltFinish_terms k) hs)
  | enter => exact .kept rfl rfl rfl rfl (.of_terms rfl rfl rfl rfl)
  | call _ _ hs => exact endCall_terms rfl rfl rfl hs
  | @begin p c =>
    refine .kept rfl rfl rfl rfl ?_
    cases c with
    | write fd buf nbytes => exact (SameTerms.writePatch k).trans (.of_terms rfl rfl rfl rfl)
    | _ => exact .of_terms rfl rfl rfl rfl
  | @finish p c _ hpt hs =>
    exact endCall_terms (p := p) (c := c) (by simp [Event.call?, hpt]) rfl rfl hs
  | @report p x n hpt =>
    have hprinted : Event.report.printed? k = some (x.report n) := by
      rw [Event.printed?, hpt]
      rfl
    have hshow := Display.println_report x n k.toDisplay
    refine .report rfl hprinted (x.report_printed n).2 ?_
    obtain ⟨d, ⟨hr, heq⟩ | ⟨hr, heq⟩⟩ := reportStep_cases p x n k
    · rw [heq]
      exact Or.inl (hshow.symm.trans hr)
    · rw [heq]
      exact Or.inr (hshow.symm.trans hr)
  | halt => exact .kept rfl rfl rfl rfl (syscallHalt_terms k)
  | raisedHalt => exact .kept rfl rfl rfl rfl (syscallHalt_terms k)

end Steps

end WnajOS
