import WnajOS.Calls
import WnajOS.Keyboard

/-!
# Processes: `syscall_execute`, `syscall_halt` and `pit_handler`

The machine that the three terminals' processes run on.  Its events are what a program does
(a system call, an exception) and the interrupts that the code admits: a tick of the PIT or a
key can come wherever interrupts are enabled.  Between two such places the code runs in one
step, so a state of the machine is a state in which an interrupt can come.  The text of a
`terminal_write` and all that a key does, a switch of terminals among it, are one step here too;
how they are interrupted is the subject of the output path.

A saved pair of stack pointers is modelled by the code it resumes.  The one place where a
stack is reused while a saved context lies on it, by the code itself and whatever the programs
do, is marked `lost`: `pit_handler` executes a shell on the kernel stack of the process it
interrupted, and that process goes on from the base of the same stack.
-/

namespace WnajOS

/-! ### Parsing a command -/

/-- The loop over the file name, with `n` bytes left, at index `i`: where it stops, and
whether at a blank. -/
def nameEnd (command : Str) : (n i : ℕ) → ℕ × Bool
  | 0, i => (i, false)
  | n + 1, i =>
    if command.byteAt i = 0x20 then (i, true)
    else if command.byteAt i = 0 then (i, false)
    else nameEnd command n (i + 1)

/-- The loop over the argument, which starts after the blank at index `i`. -/
def argEnd (command : Str) (i : ℕ) : (n j : ℕ) → ℕ
  | 0, j => j
  | n + 1, j => if command.byteAt (i + j) = 0 then j else argEnd command i n (j + 1)

/-- A parsed command: `file_name`, and what becomes of `this_pcb->args`. -/
structure Command where
  fileName : Str
  args : Buf

/-- The first part of `syscall_execute`. -/
def parseCommand (command : Str) : Command :=
  let cmdLen := min (strlen command) 32
  let (i, hasArg) := nameEnd command cmdLen 0
  let zeros : Buf := fun _ => 0
  if hasArg then
    let j := argEnd command i cmdLen 1
    ⟨command.take i, memcpy zeros (strncpy zeros (command.drop (i + 1)) j) j⟩
  else ⟨command.take i, zeros⟩

/-- `syscall_getargs`: its result and the buffer after it.  With a negative `nbytes` the
stores of `memset` run into a page fault, for which `none` stands. -/
def syscallGetargs (b : Pcb) (buf : Buf) (nbytes : Int32) : Option (Int32 × Buf) :=
  if nbytes > Int32.ofNat maxArgLen ∨
      (strlen ((List.range maxArgLen).map b.args) = 0 ∧ nbytes > 0) then some (-1, buf)
  else if nbytes < 0 then none
  else
    let n := nbytes.toInt.toNat
    some (0, memcpy (memset buf 0 n) b.args n)

/-! ### Executables -/

/-- `"\177ELF"`. -/
def elfMagic : Str := [127, 69, 76, 70]

/-- `is_valid_exec`: the entry of a valid executable.  `buf` is the array `buf` as it is
before `read_data` stores into it. -/
def isValidExec (img : Image) (fileName : Str) (buf : Buf) : Option DirEntry :=
  match readDentryByName img fileName with
  | none => none
  | some d =>
    let buf := (readData img d.inodeNum 0 buf 4).buf
    if strncmp [buf 0, buf 1, buf 2, buf 3] elfMagic 4 = 0 then some d else none

/-- The bytes between the address programs are loaded at and the end of the program page. -/
def programSpace : ℕ := 0x8400000 - 0x8048000

/-- The loader stores no byte beyond the program page. -/
def LoadFits (img : Image) (d : DirEntry) : Prop :=
  (readData img d.inodeNum 0 (fun _ => 0) (img.inodes d.inodeNum.toNat).length).bufCounter
    ≤ programSpace

instance (img : Image) (d : DirEntry) : Decidable (LoadFits img d) :=
  inferInstanceAs (Decidable (_ ≤ _))

/-! ### The process control block of a pid -/

namespace Kernel

/-- The process control block of the process `p`. -/
def pcbOf (k : Kernel) (p : ℤ) : Pcb := k.pcbs (pcbAddr p)

/-- `terms[scheduled_term].pid`. -/
def cur (k : Kernel) : ℤ := (k.terms k.scheduledTerm).pid

/-- The assignment of `terms[scheduled_term].pid`. -/
def setCur (k : Kernel) (p : ℤ) : Kernel :=
  let term := { k.terms k.scheduledTerm with pid := p }
  { k with terms := Function.update k.terms k.scheduledTerm term }

/-- The assignment of `page_directory[USER_MEM_INDEX].addr_31_12`. -/
def setUserPage (k : Kernel) (p : ℤ) : Kernel :=
  let directory := setPdeAddr userPageIndex (userFrame p) k.paging.pageDirectory
  { k with paging := { k.paging with pageDirectory := directory } }

/-- The process on whose kernel stack the kernel runs, or would run on entry from user mode. -/
def kstack (k : Kernel) : ℤ :=
  match k.ctl.point with
  | .user _ => (0x800000 - k.esp0) / 0x2000
  | _ => k.ctl.stack

end Kernel

/-! ### `syscall_execute` -/

/-- The search for a free slot, with `n` slots left, at slot `i`. -/
def slotFrom (pid : ℤ → ℤ) : (n i : ℕ) → Option ℕ
  | 0, _ => none
  | n + 1, i => if pid i = 0 then some i else slotFrom pid n (i + 1)

/-- The slot that `syscall_execute` takes. -/
def freeSlot (pid : ℤ → ℤ) : Option ℕ := slotFrom pid maxPids 0

/-- How `syscall_execute` ends: it returns -1 and has changed nothing, it is about to enter
the program, or it raises a page fault. -/
inductive Execute
  | fails
  | starts (k : Kernel)
  | faults (k : Kernel)

/-- The new pid is taken and its frame mapped. -/
def Kernel.allocate (k : Kernel) (i : ℤ) : Kernel :=
  { k with pid := Function.update k.pid i 1, currentPid := i }.setUserPage i

/-- The process control block that `syscall_execute` fills in. -/
def newPcb (b : Pcb) (i oldPid : ℤ) (caller : Caller) (args : Buf) : Pcb :=
  { b with
    processId := i
    parentId := if 0 ≤ i ∧ i ≤ 2 then -1 else oldPid
    fdArr := setupFd b.fdArr
    saved := caller
    active := true
    args := args }

/-- `syscall_execute` from the creation of the process control block to the `sti`. -/
def Kernel.createProcess (k : Kernel) (i : ℤ) (caller : Caller) (args : Buf) : Kernel :=
  let oldPid := k.cur
  let stack := k.kstack
  let k := { k with thisPcb := pcbAddr i }.setCur i
  let k := k.setPcb (pcbAddr i) (newPcb (k.pcbOf i) i oldPid caller args)
  { k with esp0 := stackBase i, ctl := ⟨.entering i, stack⟩ }

/-- `syscall_execute` up to its `sti`.  `buf` is the array of `is_valid_exec` before it is
stored into. -/
def syscallExecute (img : Image) (k : Kernel) (caller : Caller) (command : Str) (buf : Buf) :
    Execute :=
  let cmd := parseCommand command
  match isValidExec img cmd.fileName buf with
  | none => .fails
  | some d =>
    match freeSlot k.pid with
    | none => .fails
    | some i =>
      if LoadFits img d then .starts ((k.allocate i).createProcess i caller cmd.args)
      else .faults (k.allocate i)

/-! ### `syscall_halt` -/

/-- The entry after the loop over the descriptors is done with it. -/
def clearOps (k : Kernel) (fd : ℕ) : Kernel :=
  k.setFds (Function.update k.pcb.fdArr fd { k.pcb.fdArr fd with fileOps := none })

/-- The loop of `syscall_halt` over the descriptors, with `n` left, at `fd`. -/
def closeFrom : (n fd : ℕ) → Kernel → Except Kernel Kernel
  | 0, _, k => .ok k
  | n + 1, fd, k =>
    match syscallClose k (Int32.ofNat fd) with
    | .done (_, k) => closeFrom n (fd + 1) (clearOps k fd)
    | .waits => .ok k
    | .fault k => .error k

/-- Where the code that a saved pair of stack pointers belongs to goes on.  The frames of
`pit_handler` and of `syscall_halt` that called `syscall_execute` lie on stacks that have been
used since. -/
def Caller.resume : Caller → Ctl
  | .linkage p => ⟨.user p, p⟩
  | .pit => ⟨.lost, 0⟩
  | .halt => ⟨.lost, 0⟩

/-- An exception on the stack that a saved pair of stack pointers belongs to. -/
def Caller.raise (p : ℤ) : Caller → Ctl
  | .linkage stack => ⟨.faulted p .pageFault, stack⟩
  | .pit => ⟨.lost, 0⟩
  | .halt => ⟨.lost, 0⟩

/-- `syscall_halt` after its first `if`. -/
def Kernel.haltFinish (k : Kernel) : Kernel :=
  let b := k.pcb
  let parent := b.parentId
  let k := { k with currentPid := parent }.setCur parent
  let k := { k with pid := Function.update k.pid b.processId 0 }
  let k := k.setPcb k.thisPcb { b with active := false, processId := -1 }
  let k := k.setUserPage parent
  match closeFrom 6 2 k with
  | .error k => { k with ctl := b.saved.raise parent }
  | .ok k =>
    { k with thisPcb := pcbAddr parent, esp0 := stackBase parent, ctl := b.saved.resume }

/-- `syscall_halt`, for a base shell up to its `sti`. -/
def Kernel.syscallHalt (k : Kernel) : Kernel :=
  let stack := k.kstack
  let k := { k with thisPcb := pcbAddr k.cur }
  if k.pcb.parentId = -1 then
    { k with pid := Function.update k.pid k.cur 0, ctl := ⟨.restart k.cur, stack⟩ }
  else k.haltFinish

/-! ### `pit_handler` -/

/-- The caller is a program, through `syscall_linkage`. -/
def Caller.IsLinkage : Caller → Prop
  | .linkage _ => True
  | _ => False

instance : DecidablePred Caller.IsLinkage
  | .linkage _ => .isTrue trivial
  | .pit => .isFalse id
  | .halt => .isFalse id

/-- The process that `syscall_execute` is about to enter. -/
def Point.entering? : Point → Option ℤ
  | .entering c => some c
  | _ => none

/-- The process whose program runs. -/
def Point.user? : Point → Option ℤ
  | .user p => some p
  | _ => none

lemma Point.eq_user {x : Point} {p : ℤ} (h : x.user? = some p) : x = .user p := by
  cases x <;>
    first | exact congrArg Point.user (Option.some.inj h) | exact absurd h (by simp [user?])

lemma Point.eq_entering {x : Point} {p : ℤ} (h : x.entering? = some p) : x = .entering p := by
  cases x <;>
    first | exact congrArg Point.entering (Option.some.inj h) | exact absurd h (by simp [entering?])

/-- The process that the exception handler is about to halt. -/
def Point.raising? : Point → Option ℤ
  | .raising p _ _ => some p
  | .faulted p _ => some p
  | _ => none

/-- The process a point belongs to, when it is one of a live process. -/
def Point.proc : Point → Option ℤ
  | .entering p => some p
  | .user p => some p
  | .sys p _ => some p
  | .raising p _ _ => some p
  | .faulted p _ => some p
  | _ => none

/-- Interrupts are enabled. -/
def Point.Enabled : Point → Prop
  | .faulted _ _ => False
  | .lost => False
  | _ => True

instance : DecidablePred Point.Enabled
  | .faulted _ _ => .isFalse id
  | .lost => .isFalse id
  | .idle => .isTrue trivial
  | .boot => .isTrue trivial
  | .entering _ => .isTrue trivial
  | .user _ => .isTrue trivial
  | .sys _ _ => .isTrue trivial
  | .raising _ _ _ => .isTrue trivial
  | .restart _ => .isTrue trivial

namespace Kernel

/-- A tick now would leave a context on a kernel stack that is about to be used from its base. -/
def Exposed (k : Kernel) : Prop :=
  ∃ c ∈ k.ctl.point.entering?, ¬(k.pcbOf c).saved.IsLinkage ∧ k.ctl.stack ≠ c

instance (k : Kernel) : Decidable k.Exposed :=
  inferInstanceAs (Decidable (∃ c ∈ k.ctl.point.entering?, _))

/-- The context that a tick saves.  Every context on an exposed stack counts as lost; some are resumed
before the stack gets as deep as they are, which is not followed here. -/
def interrupted (k : Kernel) : Ctl :=
  if k.Exposed then ⟨.lost, k.kstack⟩ else ⟨k.ctl.point, k.kstack⟩

/-- The first `if` of `pit_handler`. -/
def saveContext (k : Kernel) : Kernel :=
  if k.cur ≠ -1 then
    k.setPcb (pcbAddr k.cur) { k.pcbOf k.cur with scheduled := k.interrupted }
  else k

/-- `pit_handler` from the choice of the next terminal on, to the code it resumes or to its
`sti`.  The interrupted code runs on the kernel stack `stack`. -/
def switchContext (stack : ℤ) (k : Kernel) : Kernel :=
  let k := { k with toDisplay := k.toDisplay.pitAdvance }
  if k.cur = -1 then { k with ctl := ⟨.boot, stack⟩ }
  else
    let nextPcb := k.pcbOf k.cur
    let k := k.setUserPage nextPcb.processId
    { k with thisPcb := pcbAddr k.cur, esp0 := stackBase nextPcb.processId,
             ctl := nextPcb.scheduled }

/-- `pit_handler`. -/
def pitHandler (k : Kernel) : Kernel := k.saveContext.switchContext k.kstack

end Kernel

/-! ### Events -/

/-- What happens next. -/
inductive Event
  /-- a tick of the PIT -/
  | tick
  /-- a key is pressed -/
  | key (control : Bool) (chr : UInt8)
  /-- the program executes a command -/
  | execute (command : Str) (buf : Buf)
  /-- `pit_handler` executes the shell of a terminal without a process -/
  | bootExec (buf : Buf)
  /-- `syscall_halt` executes the shell anew -/
  | restartExec (buf : Buf)
  /-- the `iret` at the end of `syscall_execute` -/
  | enter
  /-- the program makes a call that runs with interrupts disabled -/
  | call (c : Call)
  /-- the program makes a call that enables interrupts -/
  | begin (c : Call)
  /-- the rest of such a call -/
  | finish
  /-- the program, or a system call it made, raises an exception -/
  | raise (e : Exception)
  /-- the exception handler prints the next of its texts -/
  | report
  /-- the program halts -/
  | halt
  /-- the exception handler halts the process -/
  | raisedHalt

/-- The call enables interrupts before it returns: it waits for a line or for the RTC, it
writes to the terminal, or it prints about a strange file type. -/
def EnablesInterrupts (img : Image) (k : Kernel) : Call → Prop
  | .openFile filename =>
    ∃ d ∈ readDentryByName img filename, (vacantFrom k.pcb.fdArr 7 0).isSome ∧
      driverOf d.fileType = none
  | .close _ => False
  | .read fd buf nbytes =>
    ¬(fd < 0 ∨ fd ≥ 8 ∨ buf.isNone ∨ nbytes < 0 ∨ (k.pcb.fdArr (fdIndex fd)).flags = 0) ∧
      ((k.pcb.fdArr (fdIndex fd)).fileOps = some .stdin ∨
        (k.pcb.fdArr (fdIndex fd)).fileOps = some .rtc ∧ k.rtc.freq k.scheduledTerm ≠ 0)
  | .write fd buf nbytes =>
    ¬(fd < 0 ∨ fd ≥ 8 ∨ buf.isNone ∨ nbytes < 0 ∨ (k.pcb.fdArr (fdIndex fd)).flags = 0) ∧
      (k.pcb.fdArr (fdIndex fd)).fileOps = some .stdout

instance (img : Image) (k : Kernel) : DecidablePred (EnablesInterrupts img k)
  | .openFile filename => inferInstanceAs (Decidable (∃ d ∈ readDentryByName img filename, _ ∧ _))
  | .close _ => .isFalse id
  | .read _ _ _ => inferInstanceAs (Decidable (¬_ ∧ (_ ∨ _)))
  | .write _ _ _ => inferInstanceAs (Decidable (¬_ ∧ _))

/-- What a call does before it first enables interrupts: `terminal_write` patches the page
table. -/
def beginCall (k : Kernel) : Call → Kernel
  | .write _ _ _ => { k with toDisplay := k.toDisplay.writePatch }
  | _ => k

/-- Where the exception handler starts when a call of process `p` faults: `syscall_open` has printed,
and so enabled interrupts, before it calls a missing driver; `rtc_read` divides by the rate. -/
def Kernel.faultOf (p : ℤ) (k : Kernel) : Call → Point
  | .openFile _ => .raising p .pageFault 3
  | .read fd _ _ =>
    .faulted p (if (k.pcb.fdArr (fdIndex fd)).fileOps = some .rtc then .divideError else .pageFault)
  | _ => .faulted p .pageFault

/-- The state after a call of process `p`, back in the program or in the exception handler. -/
def endCall (p : ℤ) (c : Call) (k : Kernel) : Outcome (Int32 × Kernel) → Option Kernel
  | .done (_, k') => some { k' with ctl := ⟨.user p, k.kstack⟩ }
  | .waits => none
  | .fault k' => some { k' with ctl := ⟨k.faultOf p c, k.kstack⟩ }

/-- The call whose effect the event brings about. -/
def Event.call? (k : Kernel) : Event → Option Call
  | .call c => some c
  | .finish =>
    match k.ctl.point with
    | .sys _ c => some c
    | _ => none
  | _ => none

/-- An exception of the program, or of a system call it made.  The gates of the exceptions leave
interrupts as they are. -/
def raiseStep (e : Exception) (k : Kernel) : Option Kernel :=
  match k.ctl.point with
  | .user p => some { k with ctl := ⟨.raising p e 3, k.kstack⟩ }
  | .sys p _ => some { k with ctl := ⟨.raising p e 3, k.kstack⟩ }
  | _ => none

/-- A page fault of an interrupt handler that has interrupted a process.  Where it has interrupted the
kernel itself, which has no process to halt, what follows is left out. -/
def faultStep (k : Kernel) : Option Kernel :=
  k.ctl.point.proc.map fun p => { k with ctl := ⟨.faulted p .pageFault, k.kstack⟩ }

/-- A key; a store that faults raises an exception. -/
def keyStep (control : Bool) (chr : UInt8) (k : Kernel) : Option Kernel :=
  match k.toDisplay.keyboardHandler control chr with
  | .ok d => some { k with toDisplay := d }
  | .error d => faultStep { k with toDisplay := d }

/-- `report_error` prints a text, before `n` others and the halt of the process `p`; a store that
faults raises an exception in the handler. -/
def reportStep (p : ℤ) (e : Exception) (n : ℕ) (k : Kernel) : Kernel :=
  match k.toDisplay.println (e.report n) with
  | .ok d => { k with toDisplay := d, ctl := ⟨.raising p e n, k.kstack⟩ }
  | .error d => { k with toDisplay := d, ctl := ⟨.faulted p .pageFault, k.kstack⟩ }

/-- A caller executes a command: where it goes on if that fails, and the context of the
exception handler if the loader faults. -/
def startStep (img : Image) (k : Kernel) (caller : Caller) (command : Str) (buf : Buf)
    (failed : Kernel) (fault : Ctl) : Option Kernel :=
  match syscallExecute img k caller command buf with
  | .fails => some failed
  | .starts k' => some k'
  | .faults k' => some { k' with ctl := fault }

/-- One step of the machine, `none` where the event cannot happen. -/
def step (img : Image) (e : Event) (k : Kernel) : Option Kernel :=
  match e, k.ctl.point with
  | .tick, x => if x.Enabled then some k.pitHandler else none
  | .key control chr, x => if x.Enabled then keyStep control chr k else none
  | .execute command buf, .user p =>
    startStep img k (.linkage p) command buf k ⟨.faulted p .pageFault, k.kstack⟩
  | .bootExec buf, .boot =>
    startStep img k .pit shellName buf { k with ctl := ⟨.lost, 0⟩ } ⟨.lost, 0⟩
  | .restartExec buf, .restart q =>
    startStep img k .halt shellName buf k.haltFinish ⟨.faulted q .pageFault, k.kstack⟩
  | .enter, .entering c => some { k with ctl := ⟨.user c, k.kstack⟩ }
  | .call c, .user p => if EnablesInterrupts img k c then none else endCall p c k (k.call img c)
  | .begin c, .user p =>
    if EnablesInterrupts img k c then some { beginCall k c with ctl := ⟨.sys p c, k.kstack⟩ }
    else none
  | .finish, .sys p c => endCall p c k (k.call img c)
  | .raise e, _ => raiseStep e k
  | .report, .faulted p e => some (reportStep p e 2 k)
  | .report, .raising p e (n + 1) => some (reportStep p e n k)
  | .halt, .user _ => some k.syscallHalt
  | .raisedHalt, .raising _ _ 0 => some k.syscallHalt
  | _, _ => none

/-! ### The live processes -/

/-- The processes of each terminal that have been started and have not halted, the latest
first. -/
abbrev Ledger := ℕ → List ℤ

/-- The kernel and the processes that are alive.  No code reads `live`. -/
structure Machine where
  kernel : Kernel
  live : Ledger

/-- The event is a call of `syscall_execute`. -/
def Event.starts : Event → Bool
  | .execute _ _ => true
  | .bootExec _ => true
  | .restartExec _ => true
  | _ => false

/-- The event is a call of `syscall_halt`. -/
def Event.ends : Event → Bool
  | .halt => true
  | .raisedHalt => true
  | _ => false

/-- A process is added when `syscall_execute` is about to enter its program, and removed by
`syscall_halt`. -/
def liveAfter (e : Event) (k k' : Kernel) (live : Ledger) : Ledger :=
  let t := k.scheduledTerm
  if e.starts then
    match k'.ctl.point.entering? with
    | some c => Function.update live t (c :: live t)
    | none => live
  else if e.ends then Function.update live t ((live t).erase k.cur)
  else live

/-- One step of the machine with its live processes. -/
def Machine.step (img : Image) (e : Event) (m : Machine) : Option Machine :=
  (WnajOS.step img e m.kernel).map fun k' => ⟨k', liveAfter e m.kernel k' m.live⟩

/-- The machine at boot. -/
def bootMachine (l : Layout) (pg : Paging) (vram : ℕ → ℕ → UInt8) (mem : ℤ → Pcb) : Machine :=
  ⟨entryState l pg vram mem, fun _ => []⟩

/-- A buffer that `read_data` overwrites. -/
def noBuf : Buf := fun _ => 0

/-- The machine at boot on zero memory. -/
def sampleMachine : Machine :=
  bootMachine sampleLayout samplePaging (fun _ _ => 0) samplePcbs

/-- The three shells boot. -/
def bootShells : List Event :=
  [.tick, .bootExec noBuf, .enter, .tick, .bootExec noBuf, .enter, .tick, .bootExec noBuf, .enter]

/-- The first shell executes two programs before the other shells boot, with the pids 3 and 4. -/
def bootLate : List Event :=
  [.tick, .bootExec noBuf, .enter, .execute shellName noBuf, .enter, .execute shellName noBuf,
    .enter, .tick, .bootExec noBuf, .enter, .tick, .bootExec noBuf, .enter]

end WnajOS
