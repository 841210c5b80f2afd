import WnajOS.Library.Programs
import WnajOS.CommandLine
import WnajOS.Writing

/-!
# What a program has of the kernel

A program makes its system calls on a kernel that other programs and the interrupt handlers use as
well.  `Own` is what a program has for itself: its descriptors, its argument, the rate of the RTC and
what it has printed.  On its own state every call is a function, and the kernel simulates it, as long
as the others leave the program's own state alone.

The reads from the keyboard, files of a strange type and texts with backspaces, which depend on the
others as well, are left open in the own state.
-/

namespace WnajOS

namespace Userland

open Programs

/-- A call of `ece391syscall.S`, as far as the programs make it. -/
inductive Syscall
  | openFile (filename : Str)
  | close (fd : Int32)
  | read (fd : Int32) (buf : Buf) (nbytes : Int32)
  | write (fd : Int32) (buf : Buf) (nbytes : Int32)
  | getargs (buf : Buf) (nbytes : Int32)

/-- The value that a call returns and its buffer afterwards. -/
abbrev Reply := Int32 × Buf

/-! ### The kernel -/

/-- The value of a call that returns. -/
def done? {α : Type} : Outcome α → Option α
  | .done a => some a
  | _ => none

/-- What a write that returned `ret` has put on the terminal. -/
def printedBy (k : Kernel) (fd : Int32) (buf : Buf) (ret : Int32) : List UInt8 :=
  match (k.pcb.fdArr (fdIndex fd)).fileOps with
  | some .stdout => (List.range ret.toInt.toNat).map buf
  | _ => []

/-- The kernel, and what the program has put on its terminal so far.  No code reads `printed`. -/
structure Session where
  kernel : Kernel
  printed : List UInt8

/-- A call of the program on the kernel; `none` where it does not return. -/
def Session.serve (img : Image) : Syscall → Session → Option (Reply × Session)
  | .openFile filename, s => (done? (syscallOpen img s.kernel filename)).map fun (ret, k) =>
    ((ret, noBuf), { s with kernel := k })
  | .close fd, s => (done? (syscallClose s.kernel fd)).map fun (ret, k) =>
    ((ret, noBuf), { s with kernel := k })
  | .read fd buf nbytes, s => (done? (syscallRead img s.kernel fd (some buf) nbytes)).map
    fun (ret, buf', k) => ((ret, buf'.getD buf), { s with kernel := k })
  | .write fd buf nbytes, s => (done? (syscallWrite s.kernel fd (some buf) nbytes)).map
    fun (ret, k) => ((ret, buf), ⟨k, s.printed ++ printedBy s.kernel fd buf ret⟩)
  | .getargs buf nbytes, s => (syscallGetargs s.kernel.pcb buf nbytes).map fun r => (r, s)

/-! ### The program's own state -/

/-- What a program has for itself. -/
structure Own where
  fds : FdArr
  argument : Str
  rate : Int32
  printed : List UInt8

namespace Own

/-- `syscall_read` and `syscall_write` return -1 at once. -/
def Refused (o : Own) (fd nbytes : Int32) : Prop :=
  fd < 0 ∨ fd ≥ 8 ∨ nbytes < 0 ∨ (o.fds (fdIndex fd)).flags = 0

instance (o : Own) (fd nbytes : Int32) : Decidable (o.Refused fd nbytes) :=
  inferInstanceAs (Decidable (_ ∨ _ ∨ _ ∨ _))

/-- `open` of an entry of the directory. -/
def openEntry (o : Own) (d : DirEntry) : Option (Reply × Own) :=
  match vacantFrom o.fds 7 0 with
  | none => some ((-1, noBuf), o)
  | some i => (driverOf d.fileType).map fun driver => ((Int32.ofNat i, noBuf), { o with
      fds := Function.update o.fds i ⟨some driver, d.inodeNum, 0, 1⟩
      rate := if driver = .rtc then 2 else o.rate })

/-- The driver's `read`. -/
def readFrom (img : Image) (o : Own) (fd : Int32) (buf : Buf) (nbytes : Int32) :
    Option (Reply × Own) :=
  match (o.fds (fdIndex fd)).fileOps with
  | some .stdout => some ((-1, buf), o)
  | some .dir =>
    let r := dirRead img o.fds fd buf nbytes
    some ((r.ret, r.buf), { o with fds := r.fds })
  | some .file =>
    let r := fileRead img o.fds fd buf nbytes
    some ((r.ret, r.buf), { o with fds := r.fds })
  | some .rtc => if o.rate = 0 then none else some ((0, buf), o)
  | _ => none

/-- The driver's `write`. -/
def writeTo (o : Own) (fd : Int32) (buf : Buf) (nbytes : Int32) : Option (Reply × Own) :=
  match (o.fds (fdIndex fd)).fileOps with
  | none => none
  | some .stdout =>
    let bytes := (List.range nbytes.toInt.toNat).map buf
    if 8 ∈ bytes then none else some ((nbytes, buf), { o with printed := o.printed ++ bytes })
  | some .rtc =>
    let freq := Rtc.word buf
    if freq &&& (freq - 1) ≠ 0 then some ((-1, buf), o)
    else some ((0, buf), { o with rate := freq })
  | _ => some ((-1, buf), o)

/-- A call on the own state; `none` where its effect depends on the others as well. -/
def serve (img : Image) : Syscall → Own → Option (Reply × Own)
  | .openFile filename, o =>
    match readDentryByName img filename with
    | none => some ((-1, noBuf), o)
    | some d => o.openEntry d
  | .close fd, o =>
    if fd < 2 ∨ fd ≥ 8 ∨ (o.fds (fdIndex fd)).flags = 0 then some ((-1, noBuf), o)
    else (o.fds (fdIndex fd)).fileOps.map fun _ => ((0, noBuf), { o with
      fds := Function.update o.fds (fdIndex fd) (closedEntry (o.fds (fdIndex fd))) })
  | .read fd buf nbytes, o =>
    if o.Refused fd nbytes then some ((-1, buf), o) else o.readFrom img fd buf nbytes
  | .write fd buf nbytes, o =>
    if o.Refused fd nbytes then some ((-1, buf), o) else o.writeTo fd buf nbytes
  | .getargs buf nbytes, o =>
    if nbytes.toInt ≤ 0 then none
    else if 1024 < nbytes.toInt ∨ o.argument = [] then some ((-1, buf), o)
    else some ((0, memcpy buf o.argument.byteAt nbytes.toInt.toNat), o)

end Own

/-- The kernel represents the program's own state, and its terminal can be written to. -/
structure Owns (s : Session) (o : Own) : Prop where
  fds : s.kernel.pcb.fdArr = o.fds
  args : s.kernel.pcb.args = o.argument.byteAt
  nonzero : ∀ x ∈ o.argument, x ≠ 0
  rate : s.kernel.rtc.freq s.kernel.scheduledTerm = o.rate
  printed : s.printed = o.printed
  tables : Display.VideoTables s.kernel.paging
  cursor : (s.kernel.terms s.kernel.scheduledTerm).cursor.InRange

/-- The others leave the program's own state alone, and the display in order. -/
structure Undisturbed (s s' : Session) : Prop where
  fds : s'.kernel.pcb.fdArr = s.kernel.pcb.fdArr
  args : s'.kernel.pcb.args = s.kernel.pcb.args
  rate : s'.kernel.rtc.freq s'.kernel.scheduledTerm = s.kernel.rtc.freq s.kernel.scheduledTerm
  printed : s'.printed = s.printed
  tables : Display.VideoTables s.kernel.paging → Display.VideoTables s'.kernel.paging
  cursor : (s.kernel.terms s.kernel.scheduledTerm).cursor.InRange →
    (s'.kernel.terms s'.kernel.scheduledTerm).cursor.InRange

lemma Undisturbed.refl (s : Session) : Undisturbed s s := ⟨rfl, rfl, rfl, rfl, id, id⟩

lemma Owns.undisturbed {s s' : Session} {o : Own} (h : Owns s o) (hs : Undisturbed s s') :
    Owns s' o :=
  ⟨hs.fds.trans h.fds, hs.args.trans h.args, h.nonzero, hs.rate.trans h.rate,
    hs.printed.trans h.printed, hs.tables h.tables, hs.cursor h.cursor⟩

/-! ### The calls, one by one -/

section Calls

variable {img : Image} {s : Session} {o o' : Own} {r : Reply}

lemma Owns.refused_iff (h : Owns s o) (fd nbytes : Int32) :
    (fd < 0 ∨ fd ≥ 8 ∨ nbytes < 0 ∨ (s.kernel.pcb.fdArr (fdIndex fd)).flags = 0) ↔
      o.Refused fd nbytes := by
  rw [h.fds]
  exact Iff.rfl

/-- Another array of descriptors. -/
lemma Owns.setFds (h : Owns s o) (fds : FdArr) :
    Owns { s with kernel := s.kernel.setFds fds } { o with fds := fds } := by
  refine ⟨Kernel.setFds_fdArr _ _, ?_, h.nonzero, h.rate, h.printed, h.tables, h.cursor⟩
  rw [← h.args]
  simp only [Kernel.pcb, Kernel.setFds, Kernel.setPcb, Function.update_self]

/-- Another rate. -/
lemma Owns.setRate (h : Owns s o) (freq : Int32) :
    Owns { s with kernel := { s.kernel with rtc := { s.kernel.rtc with
        freq := Function.update s.kernel.rtc.freq s.kernel.scheduledTerm freq } } }
      { o with rate := freq } :=
  ⟨h.fds, h.args, h.nonzero, Function.update_self .., h.printed, h.tables, h.cursor⟩

/-- `syscall_open` of an entry of a known type. -/
lemma openAt_eq (k : Kernel) (i : ℕ) {d : DirEntry} {driver : Driver}
    (hd : driverOf d.fileType = some driver) :
    openAt k i d =
      .ok (if driver = .rtc then
          { k.setFds (Function.update k.pcb.fdArr i ⟨some driver, d.inodeNum, 0, 1⟩) with
            rtc := k.rtc.rtcOpen k.scheduledTerm }
        else k.setFds (Function.update k.pcb.fdArr i ⟨some driver, d.inodeNum, 0, 1⟩)) := by
  have hentry : newEntry (k.pcb.fdArr i) d = ⟨some driver, d.inodeNum, 0, 1⟩ := by
    rw [newEntry, hd]
    rfl
  rw [openAt, hentry, hd]
  cases driver <;> rfl

lemma serve_openFile {filename : Str} (h : Owns s o)
    (ho : o.serve img (.openFile filename) = some (r, o')) :
    ∃ s', s.serve img (.openFile filename) = some (r, s') ∧ Owns s' o' := by
  rw [Own.serve] at ho
  rw [Session.serve, syscallOpen]
  cases hname : readDentryByName img filename with
  | none =>
    rw [hname] at ho
    obtain ⟨rfl, rfl⟩ := Prod.mk.inj (Option.some.inj ho)
    exact ⟨s, rfl, h⟩
  | some d =>
    rw [hname] at ho
    dsimp only at ho ⊢
    rw [Own.openEntry, ← h.fds] at ho
    cases hvac : vacantFrom s.kernel.pcb.fdArr 7 0 with
    | none =>
      rw [hvac] at ho
      obtain ⟨rfl, rfl⟩ := Prod.mk.inj (Option.some.inj ho)
      exact ⟨s, rfl, h⟩
    | some i =>
      rw [hvac] at ho
      obtain ⟨driver, hd, heq⟩ := Option.map_eq_some_iff.1 ho
      obtain ⟨rfl, rfl⟩ := Prod.mk.inj heq
      dsimp only
      rw [openAt_eq s.kernel i hd]
      refine ⟨_, rfl, ?_⟩
      have hfds := h.setFds (Function.update s.kernel.pcb.fdArr i ⟨some driver, d.inodeNum, 0, 1⟩)
      by_cases hrtc : driver = .rtc
      · rw [if_pos hrtc, if_pos hrtc]
        exact hfds.setRate 2
      · rw [if_neg hrtc, if_neg hrtc]
        exact hfds

lemma serve_close {fd : Int32} (h : Owns s o) (ho : o.serve img (.close fd) = some (r, o')) :
    ∃ s', s.serve img (.close fd) = some (r, s') ∧ Owns s' o' := by
  rw [Own.serve, ← h.fds] at ho
  rw [Session.serve, syscallClose]
  by_cases hbad : fd < 2 ∨ fd ≥ 8 ∨ (s.kernel.pcb.fdArr (fdIndex fd)).flags = 0
  · rw [if_pos hbad] at ho ⊢
    obtain ⟨rfl, rfl⟩ := Prod.mk.inj (Option.some.inj ho)
    exact ⟨s, rfl, h⟩
  · rw [if_neg hbad] at ho ⊢
    obtain ⟨driver, hd, heq⟩ := Option.map_eq_some_iff.1 ho
    obtain ⟨rfl, rfl⟩ := Prod.mk.inj heq
    dsimp only
    rw [hd]
    exact ⟨_, rfl, h.setFds _⟩

lemma serve_read {fd nbytes : Int32} {buf : Buf} (h : Owns s o)
    (ho : o.serve img (.read fd buf nbytes) = some (r, o')) :
    ∃ s', s.serve img (.read fd buf nbytes) = some (r, s') ∧ Owns s' o' := by
  rw [Own.serve] at ho
  rw [Session.serve, syscallRead]
  by_cases hbad : o.Refused fd nbytes
  · rw [if_pos hbad] at ho
    obtain ⟨rfl, rfl⟩ := Prod.mk.inj (Option.some.inj ho)
    rw [if_pos ((h.refused_iff fd nbytes).2 hbad)]
    exact ⟨s, rfl, h⟩
  rw [if_neg hbad] at ho
  rw [if_neg (mt (h.refused_iff fd nbytes).1 hbad)]
  rw [Own.readFrom, ← h.fds] at ho
  rw [driverRead]
  cases hops : (s.kernel.pcb.fdArr (fdIndex fd)).fileOps with
  | none =>
    rw [hops] at ho
    exact absurd ho (by simp)
  | some driver =>
    rw [hops] at ho
    cases driver with
    | stdin => exact absurd ho (by simp)
    | stdout =>
      obtain ⟨rfl, rfl⟩ := Prod.mk.inj (Option.some.inj ho)
      exact ⟨s, rfl, h⟩
    | dir =>
      obtain ⟨rfl, rfl⟩ := Prod.mk.inj (Option.some.inj ho)
      exact ⟨_, rfl, h.setFds _⟩
    | file =>
      obtain ⟨rfl, rfl⟩ := Prod.mk.inj (Option.some.inj ho)
      exact ⟨_, rfl, h.setFds _⟩
    | rtc =>
      dsimp only at ho ⊢
      rw [← h.rate] at ho
      rw [Rtc.rtcRead]
      by_cases h0 : s.kernel.rtc.freq s.kernel.scheduledTerm = 0
      · rw [if_pos h0] at ho
        exact absurd ho (by simp)
      · rw [if_neg h0] at ho ⊢
        obtain ⟨rfl, rfl⟩ := Prod.mk.inj (Option.some.inj ho)
        exact ⟨_, rfl, h.fds, h.args, h.nonzero, h.rate, h.printed, h.tables, h.cursor⟩

/-- `terminal_write` of a text without backspaces. -/
lemma terminalWrite_owns {fd nbytes : Int32} {buf : Buf} (h : Owns s o) (hfd : fd ≠ 100)
    (h8 : 8 ∉ (List.range nbytes.toInt.toNat).map buf) :
    ∃ d, s.kernel.toDisplay.terminalWrite fd (some buf) nbytes = .ok (nbytes, d) ∧
      Owns ⟨{ s.kernel with toDisplay := d }, s.printed ++ (List.range nbytes.toInt.toNat).map buf⟩
        { o with printed := o.printed ++ (List.range nbytes.toInt.toNat).map buf } := by
  rw [Display.terminalWrite_run, Display.writeTarget]
  simp only [hfd, decide_false, if_false, false_or]
  generalize (List.range nbytes.toInt.toNat).map buf = cs at h8 ⊢
  have hcursor := h.cursor
  rw [← Display.writePatch_terms, ← Display.writePatch_scheduledTerm] at hcursor
  obtain ⟨hloop, hwrote⟩ := Display.writeLoop_wrote false h.tables.writePatch hcursor
    (Cursor.stays_of_notMem h8)
  generalize s.kernel.toDisplay.writePatch.written _ _ cs = d at hloop hwrote
  rw [hloop]
  have hsched : d.scheduledTerm = s.kernel.scheduledTerm :=
    hwrote.drawn.scheduledTerm.trans (Display.writePatch_scheduledTerm _)
  have htables : Display.VideoTables d.paging := hwrote.drawn.paging ▸ h.tables.writePatch
  have hrange : (d.terms d.scheduledTerm).cursor.InRange := by
    rw [hwrote.drawn.scheduledTerm, hwrote.self]
    exact (Cursor.stays_of_notMem h8).inRange hcursor
  have hrate : s.kernel.rtc.freq d.scheduledTerm = o.rate := hsched ▸ h.rate
  refine ⟨_, rfl, ?_⟩
  have hprinted : s.printed ++ cs = o.printed ++ cs := by rw [h.printed]
  split
  · exact ⟨h.fds, h.args, h.nonzero, hrate, hprinted, htables, hrange⟩
  · exact ⟨h.fds, h.args, h.nonzero, hrate, hprinted, htables, hrange⟩

lemma serve_write {fd nbytes : Int32} {buf : Buf} (h : Owns s o)
    (ho : o.serve img (.write fd buf nbytes) = some (r, o')) :
    ∃ s', s.serve img (.write fd buf nbytes) = some (r, s') ∧ Owns s' o' := by
  rw [Own.serve] at ho
  rw [Session.serve, syscallWrite]
  -- a write that fails puts nothing on the terminal
  have hfails : printedBy s.kernel fd buf (-1) = [] := by
    rw [printedBy]
    split <;> rfl
  have hself : Owns ⟨s.kernel, s.printed ++ printedBy s.kernel fd buf (-1)⟩ o := by
    rw [hfails, List.append_nil]
    exact h
  by_cases hbad : o.Refused fd nbytes
  · rw [if_pos hbad] at ho
    obtain ⟨rfl, rfl⟩ := Prod.mk.inj (Option.some.inj ho)
    rw [if_pos ((h.refused_iff fd nbytes).2 hbad)]
    exact ⟨_, rfl, hself⟩
  rw [if_neg hbad] at ho
  rw [if_neg (mt (h.refused_iff fd nbytes).1 hbad)]
  have hown : (o.fds (fdIndex fd)).fileOps = (s.kernel.pcb.fdArr (fdIndex fd)).fileOps := by
    rw [h.fds]
  rw [Own.writeTo, hown] at ho
  rw [driverWrite]
  cases hops : (s.kernel.pcb.fdArr (fdIndex fd)).fileOps with
  | none =>
    rw [hops] at ho
    exact absurd ho (by simp)
  | some driver =>
    rw [hops] at ho
    cases driver with
    | stdout =>
      dsimp only at ho ⊢
      split at ho
      · exact absurd ho (by simp)
      rename_i h8
      obtain ⟨rfl, rfl⟩ := Prod.mk.inj (Option.some.inj ho)
      have hfd : fd ≠ 100 := by
        rintro rfl
        exact hbad (Or.inr (Or.inl (by decide)))
      obtain ⟨d, hd, howns⟩ := terminalWrite_owns h hfd h8
      rw [hd]
      refine ⟨_, rfl, ?_⟩
      rw [printedBy, hops]
      exact howns
    | rtc =>
      dsimp only at ho ⊢
      rw [Rtc.rtcWrite]
      split at ho
      · rename_i hfreq
        rw [if_pos hfreq]
        obtain ⟨rfl, rfl⟩ := Prod.mk.inj (Option.some.inj ho)
        exact ⟨_, rfl, hself⟩
      · rename_i hfreq
        rw [if_neg hfreq]
        obtain ⟨rfl, rfl⟩ := Prod.mk.inj (Option.some.inj ho)
        refine ⟨_, rfl, ?_⟩
        rw [printedBy, hops]
        simp only [List.append_nil]
        exact h.setRate _
    | _ =>
      obtain ⟨rfl, rfl⟩ := Prod.mk.inj (Option.some.inj ho)
      exact ⟨_, rfl, hself⟩

lemma serve_getargs {nbytes : Int32} {buf : Buf} (h : Owns s o)
    (ho : o.serve img (.getargs buf nbytes) = some (r, o')) :
    ∃ s', s.serve img (.getargs buf nbytes) = some (r, s') ∧ Owns s' o' := by
  rw [Own.serve] at ho
  rw [Session.serve]
  split at ho
  · exact absurd ho (by simp)
  rename_i hpos
  by_cases hlarge : 1024 < nbytes.toInt
  · rw [if_pos (Or.inl hlarge)] at ho
    obtain ⟨rfl, rfl⟩ := Prod.mk.inj (Option.some.inj ho)
    have hguard : nbytes > Int32.ofNat maxArgLen := Int32.lt_iff_toInt_lt.2 hlarge
    rw [syscallGetargs, if_pos (Or.inl hguard)]
    exact ⟨s, rfl, h⟩
  by_cases hnil : o.argument = []
  · rw [if_pos (Or.inr hnil)] at ho
    obtain ⟨rfl, rfl⟩ := Prod.mk.inj (Option.some.inj ho)
    rw [getargs_of_empty h.args hnil (Int32.lt_iff_toInt_lt.2 (not_le.1 hpos))]
    exact ⟨s, rfl, h⟩
  · rw [if_neg (not_or.2 ⟨hlarge, hnil⟩)] at ho
    obtain ⟨rfl, rfl⟩ := Prod.mk.inj (Option.some.inj ho)
    rw [getargs_of_ne h.args h.nonzero hnil (not_le.1 hpos).le (not_lt.1 hlarge)]
    exact ⟨s, rfl, h⟩

end Calls

/-- **The kernel gives each program its own state.** -/
lemma serve_simulates (img : Image) :
    Program.Simulates (Session.serve img) Undisturbed (Own.serve img) Eq Owns where
  others _ _ o h hs := ⟨o, rfl, h.undisturbed hs⟩
  serve c s o r o' h ho := by
    cases c with
    | openFile filename => exact serve_openFile h ho
    | close fd => exact serve_close h ho
    | read fd buf nbytes => exact serve_read h ho
    | write fd buf nbytes => exact serve_write h ho
    | getargs buf nbytes => exact serve_getargs h ho

/-! ### A program that was just started -/

/-- A kernel whose first process has just been started, with an argument. -/
def sampleSession (argument : Str) : Session :=
  ⟨sampleKernel.setPcb sampleKernel.thisPcb { sampleKernel.pcb with args := argument.byteAt }, []⟩

/-- What the process has. -/
def sampleOwn (argument : Str) : Own := ⟨setupFd fun _ => ⟨none, 0, 0, 0⟩, argument, 0, []⟩

lemma sample_owns {argument : Str} (h : 0 ∉ argument) :
    Owns (sampleSession argument) (sampleOwn argument) := by
  have hcursor : (sampleKernel.terms sampleKernel.scheduledTerm).cursor.InRange :=
    ⟨by decide, by decide⟩
  refine ⟨?_, ?_, fun x hx h0 => h (h0 ▸ hx), rfl, rfl, Display.tables_boot sampleLayout
    samplePaging (fun _ _ => 0) samplePcbs, hcursor⟩
  · simp only [sampleSession, Kernel.pcb, Kernel.setPcb, Function.update_self]
    exact Kernel.setFds_fdArr ..
  · simp only [sampleSession, Kernel.pcb, Kernel.setPcb, Function.update_self, sampleOwn]

end Userland

end WnajOS
