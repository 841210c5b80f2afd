import WnajOS.Exceptions
import WnajOS.FileSystem.Drivers
import WnajOS.Terminal

/-!
# The kernel's state and the calls on descriptors

The state of the kernel that the system calls and the interrupt handlers share: the process
table, the process control blocks by their address, the terminals and the display, the RTC
and the stack pointer of the TSS.  Below it, the RTC driver (`rtc.c`) and the four calls on
descriptors of `syscall_functions.c`, on the descriptor array of `this_pcb`.
-/

namespace WnajOS

/-! ### The RTC -/

/-- `rtc_freq` and `rtc_counter`, by terminal. -/
structure Rtc where
  freq : ℕ → Int32
  counter : ℕ → Int32

namespace Rtc

/-- `rtc_open`, on the scheduled terminal. -/
def rtcOpen (term : ℕ) (r : Rtc) : Rtc := { r with freq := Function.update r.freq term 2 }

/-- `rtc_read` up to its loop: the number of interrupts to wait for, `none` for the divide
error. -/
def rtcRead (term : ℕ) (r : Rtc) : Option Rtc :=
  if r.freq term = 0 then none
  else some { r with counter := Function.update r.counter term (512 / r.freq term) }

/-- The state in which the loop of `rtc_read` ends. -/
def rtcReadEnd (term : ℕ) (r : Rtc) : Rtc :=
  { r with counter := Function.update r.counter term 0 }

/-- `*(int32_t*)buf`. -/
def word (buf : Buf) : Int32 :=
  ((buf 0).toUInt32 ||| (buf 1).toUInt32 <<< 8 ||| (buf 2).toUInt32 <<< 16
    ||| (buf 3).toUInt32 <<< 24).toInt32

/-- `rtc_write`. -/
def rtcWrite (term : ℕ) (buf : Buf) (r : Rtc) : Int32 × Rtc :=
  let freq := word buf
  if freq &&& (freq - 1) ≠ 0 then (-1, r)
  else (0, { r with freq := Function.update r.freq term freq })

end Rtc

/-! ### The kernel's state -/

/-- A call of a process on its descriptors. -/
inductive Call
  | openFile (filename : Str)
  | close (fd : Int32)
  | read (fd : Int32) (buf : Option Buf) (nbytes : Int32)
  | write (fd : Int32) (buf : Option Buf) (nbytes : Int32)

/-- Where the processor stands, or a suspended kernel stack. -/
inductive Point
  /-- the `hlt` loop at the end of `entry` -/
  | idle
  /-- `pit_handler`, about to execute the shell of a terminal without a process -/
  | boot
  /-- `syscall_execute` of process `p`, between its `sti` and its `iret` -/
  | entering (p : ℤ)
  /-- the program of process `p` -/
  | user (p : ℤ)
  /-- the system call `c` of process `p`, which has enabled interrupts -/
  | sys (p : ℤ) (c : Call)
  /-- `report_error`, which prints `n` texts before it halts process `p` -/
  | raising (p : ℤ) (e : Exception) (n : ℕ)
  /-- the handler of an exception of the kernel itself, with interrupts still disabled -/
  | faulted (p : ℤ) (e : Exception)
  /-- `syscall_halt` of the base shell `p`, about to execute the shell anew -/
  | restart (p : ℤ)
  /-- a stack whose contents are no longer those of the code that was to run on it -/
  | lost

/-- A point of the code and the process whose kernel stack it runs on, or would enter the
kernel on. -/
structure Ctl where
  point : Point
  stack : ℤ

/-- The code that `syscall_execute` returns to. -/
inductive Caller
  /-- `syscall_linkage`, for process `p` -/
  | linkage (p : ℤ)
  /-- `pit_handler` -/
  | pit
  /-- `syscall_halt` -/
  | halt
deriving DecidableEq

/-- `MAX_PIDs`. -/
def maxPids : ℕ := 6

/-- `MAX_ARG_LEN`. -/
def maxArgLen : ℕ := 1024

/-- `pcb_t`.  A saved pair of `ebp` and `esp` is given by what it resumes: the caller of
`syscall_execute` for `saved`, the interrupted code for `scheduled`. -/
structure Pcb where
  processId : ℤ
  parentId : ℤ
  fdArr : FdArr
  saved : Caller
  scheduled : Ctl
  active : Bool
  args : Buf

/-- The state of the kernel.  The process control blocks are found by their address, the
slots of `pid` by their index. -/
structure Kernel extends Display where
  pid : ℤ → ℤ
  currentPid : ℤ
  thisPcb : ℤ
  pcbs : ℤ → Pcb
  esp0 : ℤ
  rtc : Rtc
  ctl : Ctl

/-- `EIGHT_MB - (p + 1) * EIGHT_KB`, the address of a process control block. -/
def pcbAddr (p : ℤ) : ℤ := 0x800000 - (p + 1) * 0x2000

/-- `EIGHT_MB - p * EIGHT_KB`, the base of a kernel stack. -/
def stackBase (p : ℤ) : ℤ := 0x800000 - p * 0x2000

/-- `(EIGHT_MB + p * FOUR_MB_PAGE) >> ADDRESS_SHIFT_LEFT`, as the 20 bits of an entry. -/
def userFrame (p : ℤ) : ℕ := (((0x800000 + p * 0x400000) / 4096) % 2 ^ 20).toNat

namespace Kernel

/-- The process control block at `this_pcb`. -/
def pcb (k : Kernel) : Pcb := k.pcbs k.thisPcb

/-- An update of one process control block. -/
def setPcb (k : Kernel) (addr : ℤ) (b : Pcb) : Kernel :=
  { k with pcbs := Function.update k.pcbs addr b }

/-- An update of `this_pcb->fd_arr`. -/
def setFds (k : Kernel) (fds : FdArr) : Kernel :=
  k.setPcb k.thisPcb { k.pcb with fdArr := fds }

@[simp] lemma setFds_fdArr (k : Kernel) (fds : FdArr) : (k.setFds fds).pcb.fdArr = fds := by
  simp only [pcb, setFds, setPcb, Function.update_self]

@[simp] lemma setFds_thisPcb (k : Kernel) (fds : FdArr) : (k.setFds fds).thisPcb = k.thisPcb := rfl

/-- An update of the line being typed on the scheduled terminal. -/
def setInput (k : Kernel) (inp : Input) : Kernel :=
  let term := { k.terms k.scheduledTerm with input := inp }
  { k with terms := Function.update k.terms k.scheduledTerm term }

end Kernel

/-- How a call ends: it returns, it has to wait for an interrupt first, or it raises a
processor exception in the given state. -/
inductive Outcome (α : Type)
  | done (a : α)
  | waits
  | fault (k : Kernel)

/-- The values of a call that returns, changed by a function. -/
def Outcome.map {α β : Type} (f : α → β) : Outcome α → Outcome β
  | done a => done (f a)
  | waits => waits
  | fault k => fault k

/-! ### `syscall_read` and `syscall_write` -/

/-- The call of the driver's `read`: `terminal_read`, `dummy_read`, `dir_read`, `file_read`
or `rtc_read`. -/
def driverRead (img : Image) (k : Kernel) (fd : Int32) (buf : Buf) (nbytes : Int32) :
    Outcome (Int32 × Buf × Kernel) :=
  match (k.pcb.fdArr (fdIndex fd)).fileOps with
  | none => .fault k
  | some .stdin =>
    let inp := (k.terms k.scheduledTerm).input
    if inp.eol then
      let (len, buf, inp) := terminalRead inp buf nbytes
      .done (len, buf, k.setInput inp)
    else .waits
  | some .stdout => .done (-1, buf, k)
  | some .dir =>
    let r := dirRead img k.pcb.fdArr fd buf nbytes
    .done (r.ret, r.buf, k.setFds r.fds)
  | some .file =>
    let r := fileRead img k.pcb.fdArr fd buf nbytes
    .done (r.ret, r.buf, k.setFds r.fds)
  | some .rtc =>
    match k.rtc.rtcRead k.scheduledTerm with
    | none => .fault k
    | some rtc => .done (0, buf, { k with rtc := rtc.rtcReadEnd k.scheduledTerm })

/-- `syscall_read`: the value returned, the buffer and the state; a null pointer is `none`. -/
def syscallRead (img : Image) (k : Kernel) (fd : Int32) (buf : Option Buf) (nbytes : Int32) :
    Outcome (Int32 × Option Buf × Kernel) :=
  match buf with
  | none => .done (-1, none, k)
  | some buf =>
    if fd < 0 ∨ fd ≥ 8 ∨ nbytes < 0 ∨ (k.pcb.fdArr (fdIndex fd)).flags = 0 then
      .done (-1, some buf, k)
    else (driverRead img k fd buf nbytes).map fun (ret, buf, k) => (ret, some buf, k)

/-- The call of the driver's `write`: `dummy_write`, `terminal_write`, `dir_write`,
`file_write` or `rtc_write`. -/
def driverWrite (k : Kernel) (fd : Int32) (buf : Buf) (nbytes : Int32) :
    Outcome (Int32 × Kernel) :=
  match (k.pcb.fdArr (fdIndex fd)).fileOps with
  | none => .fault k
  | some .stdin => .done (-1, k)
  | some .stdout =>
    match k.toDisplay.terminalWrite fd (some buf) nbytes with
    | .error d => .fault { k with toDisplay := d }
    | .ok (ret, d) => .done (ret, { k with toDisplay := d })
  | some .dir => .done (-1, k)
  | some .file => .done (-1, k)
  | some .rtc =>
    let (ret, rtc) := k.rtc.rtcWrite k.scheduledTerm buf
    .done (ret, { k with rtc := rtc })

/-- `syscall_write`. -/
def syscallWrite (k : Kernel) (fd : Int32) (buf : Option Buf) (nbytes : Int32) :
    Outcome (Int32 × Kernel) :=
  match buf with
  | none => .done (-1, k)
  | some buf =>
    if fd < 0 ∨ fd ≥ 8 ∨ nbytes < 0 ∨ (k.pcb.fdArr (fdIndex fd)).flags = 0 then .done (-1, k)
    else driverWrite k fd buf nbytes

/-! ### `syscall_open` and `syscall_close` -/

/-- The search for a vacant entry, with `n` entries left after entry `i`. -/
def vacantFrom (fds : FdArr) : (n i : ℕ) → Option ℕ
  | 0, i => if (fds i).flags = 0 then some i else none
  | n + 1, i => if (fds i).flags = 0 then some i else vacantFrom fds n (i + 1)

/-- The driver table of a file type, none for a strange one. -/
def driverOf (fileType : UInt32) : Option Driver :=
  if fileType = 0 then some .rtc
  else if fileType = 1 then some .dir
  else if fileType = 2 then some .file
  else none

/-- The text `printf` prints for a strange file type. -/
def strangeText (fileType : UInt32) : List UInt8 :=
  let number := fileType.toInt32.toInt
  let digits := (Nat.toDigits 10 number.natAbs).map fun c => UInt8.ofNat c.toNat
  ("We have a strange file type ".toList.map fun c => UInt8.ofNat c.toNat)
    ++ (if number < 0 then [45] else []) ++ digits ++ [10]

/-- The assignments of `syscall_open` to the entry; a strange file type leaves the table of
function pointers as it was. -/
def newEntry (e : FdEntry) (d : DirEntry) : FdEntry where
  flags := 1
  inode := d.inodeNum
  filePos := 0
  fileOps := (driverOf d.fileType).or e.fileOps

/-- The message of `syscall_open` about a strange file type. -/
def Kernel.complain (k : Kernel) (fileType : UInt32) : Except Kernel Kernel :=
  match k.toDisplay.clear.puts (strangeText fileType) with
  | .error d => .error { k with toDisplay := d }
  | .ok d => .ok { k with toDisplay := d }

/-- The call of the driver's `open`, which always returns 0; no driver is a jump to address 0. -/
def driverOpen (k : Kernel) : Option Driver → Except Kernel Kernel
  | none => .error k
  | some .rtc => .ok { k with rtc := k.rtc.rtcOpen k.scheduledTerm }
  | some _ => .ok k

/-- The end of `syscall_open`, with the vacant entry `fdIdx` found. -/
def openAt (k : Kernel) (fdIdx : ℕ) (d : DirEntry) : Except Kernel Kernel := do
  let e := newEntry (k.pcb.fdArr fdIdx) d
  let k := k.setFds (Function.update k.pcb.fdArr fdIdx e)
  let k ← if driverOf d.fileType = none then k.complain d.fileType else .ok k
  driverOpen k e.fileOps

/-- `syscall_open`. -/
def syscallOpen (img : Image) (k : Kernel) (filename : Str) : Outcome (Int32 × Kernel) :=
  match readDentryByName img filename with
  | none => .done (-1, k)
  | some fileMetadata =>
    match vacantFrom k.pcb.fdArr 7 0 with
    | none => .done (-1, k)
    | some fdIdx =>
      match openAt k fdIdx fileMetadata with
      | .error k => .fault k
      | .ok k => .done (Int32.ofNat fdIdx, k)

/-- The entry that `syscall_close` leaves. -/
def closedEntry (e : FdEntry) : FdEntry := { e with flags := 0, filePos := 0, inode := 0 }

/-- `syscall_close`.  The driver's `close` does nothing. -/
def syscallClose (k : Kernel) (fd : Int32) : Outcome (Int32 × Kernel) :=
  if fd < 2 ∨ fd ≥ 8 ∨ (k.pcb.fdArr (fdIndex fd)).flags = 0 then .done (-1, k)
  else
    let e := k.pcb.fdArr (fdIndex fd)
    let k := k.setFds (Function.update k.pcb.fdArr (fdIndex fd) (closedEntry e))
    match e.fileOps with
    | none => .fault k
    | some _ => .done (0, k)

/-- `setup_fd`.  The tables of function pointers of the entries 2 to 7 are left alone. -/
def setupFd (fds : FdArr) : FdArr := fun i =>
  if i = 0 then ⟨some .stdin, 0, 0, 1⟩
  else if i = 1 then ⟨some .stdout, 0, 0, 1⟩
  else if i < maxFdArrSize then closedEntry (fds i)
  else fds i

/-! ### The state at the end of `entry` -/

/-- A terminal after `init_terms`. -/
def initTerm : Terminal := ⟨⟨fun _ => 0, 0, false⟩, ⟨0, 0⟩, -1⟩

/-- The state at the end of `entry`, when the first tick of the PIT comes.  The tables of
`init_paging` lie at the pages of the layout; what was in memory before is arbitrary. -/
def entryState (l : Layout) (pg : Paging) (vram : ℕ → ℕ → UInt8) (mem : ℤ → Pcb) : Kernel where
  terms _ := initTerm
  scheduledTerm := 2
  visibleTerm := 0
  screenX := 0
  screenY := 0
  paging := initPaging l.pt0 l.vidmap pg
  vram := vram
  crtc := 0
  pendingSig _ := 0
  pid _ := 0
  currentPid := 0
  thisPcb := 0
  pcbs := mem
  esp0 := 0x800000
  rtc := ⟨fun _ => 0, fun _ => 0⟩
  ctl := ⟨.idle, 0⟩

/-- A layout of the page tables. -/
def sampleLayout : Layout := ⟨0x410, 0x411, fun _ => newPte false false false, by decide,
  by decide, by decide⟩

/-- Memory before the boot, all zero. -/
def samplePaging : Paging :=
  ⟨fun _ => newPde false false false false 0, fun _ => newPte false false false 0,
    fun _ => newPte false false false 0⟩

/-- Process control blocks in memory that has never been used. -/
def samplePcbs : ℤ → Pcb := fun _ =>
  ⟨0, 0, fun _ => ⟨none, 0, 0, 0⟩, .pit, ⟨.lost, 0⟩, false, fun _ => 0⟩

/-- The state at boot on zero memory. -/
def sampleBoot : Kernel := entryState sampleLayout samplePaging (fun _ _ => 0) samplePcbs

/-- A state in which the first process has just set up its descriptors. -/
def sampleKernel : Kernel :=
  { sampleBoot with thisPcb := pcbAddr 0 }.setFds (setupFd fun _ => ⟨none, 0, 0, 0⟩)

end WnajOS
