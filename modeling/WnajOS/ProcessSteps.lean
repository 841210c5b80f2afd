import WnajOS.Process

/-!
# What one step can do to the processes

`step_cases` lists the steps of the machine with the points they start from.  A step creates a
process, ends one, switches to the next terminal, or leaves the processes as they are:
`step_effect` says so once, with all that the step reads and writes.  The invariants of the
later files are derived from the two.
-/

namespace WnajOS

/-! ### Addresses -/

lemma pcbAddr_inj {p q : ℤ} : pcbAddr p = pcbAddr q ↔ p = q := by
  rw [pcbAddr, pcbAddr]
  omega

/-- The six processes have the frames from 8 MB on. -/
lemma userFrame_eq {p : ℤ} (h0 : 0 ≤ p) (h6 : p < 6) :
    userFrame p = 0x800 + 0x400 * p.toNat := by
  rw [userFrame]
  omega

lemma userFrame_inj {p q : ℤ} (hp0 : 0 ≤ p) (hp6 : p < 6) (hq0 : 0 ≤ q) (hq6 : q < 6) :
    userFrame p = userFrame q ↔ p = q := by
  rw [userFrame_eq hp0 hp6, userFrame_eq hq0 hq6]
  omega

/-! ### Updates of the kernel, field by field -/

namespace Kernel

variable (k : Kernel)

@[simp] lemma setPcb_pcbOf (p q : ℤ) (b : Pcb) :
    (k.setPcb (pcbAddr p) b).pcbOf q = if q = p then b else k.pcbOf q := by
  by_cases h : q = p
  · subst h
    simp only [pcbOf, setPcb, Function.update_self, if_true]
  · rw [if_neg h]
    exact Function.update_of_ne (fun he => h (pcbAddr_inj.1 he)) _ _

lemma setCur_pid (p : ℤ) (t : ℕ) :
    ((k.setCur p).terms t).pid = if t = k.scheduledTerm then p else (k.terms t).pid := by
  by_cases h : t = k.scheduledTerm
  · subst h
    simp only [setCur, Function.update_self, if_true]
  · rw [if_neg h, setCur]
    simp only [Function.update_of_ne h]

@[simp] lemma setFds_setFds (fds fds' : FdArr) : (k.setFds fds).setFds fds' = k.setFds fds' := by
  simp only [setFds, setPcb, pcb, Function.update_self, Function.update_idem]

end Kernel

/-! ### Steps that leave the processes alone -/

/-- The process a point belongs to, unless an exception handler has taken over. -/
def Point.runs : Point → Option ℤ
  | .entering p => some p
  | .user p => some p
  | .sys p _ => some p
  | _ => none

/-- The process that `report_error` is about to halt, the exception, and how many texts follow the
next one. -/
def Point.reports? : Point → Option (ℤ × Exception × ℕ)
  | .faulted p e => some (p, e, 2)
  | .raising p e (n + 1) => some (p, e, n)
  | _ => none

lemma Point.proc_of_reports {x : Point} {p : ℤ} {e : Exception} {n : ℕ}
    (h : x.reports? = some (p, e, n)) : x.proc = some p := by
  unfold Point.reports? at h
  split at h
  · exact congrArg (Option.map Prod.fst) h
  · exact congrArg (Option.map Prod.fst) h
  · exact absurd h (by simp)

lemma Point.user_of_reports {x : Point} {y : ℤ × Exception × ℕ} (h : x.reports? = some y) :
    x.user? = none := by
  cases x <;> first | rfl | exact absurd h (by simp [Point.reports?])

lemma Point.proc_of_runs {x : Point} {p : ℤ} (h : x.runs = some p) : x.proc = some p := by
  cases x <;> first | exact h | exact absurd h (by simp [Point.runs])

/-- The processor stays where it is, or moves within one process without entering its program
anew. -/
inductive Ctl.Moves : Ctl → Ctl → Prop
  | refl (x : Ctl) : Moves x x
  | within {x x' : Ctl} {p : ℤ} (hx : x.point.proc = some p) (hx' : x'.point.proc = some p)
      (hold : x'.point.entering? = none)
      (hruns : x'.point.runs = none ∨ x.point.runs = some p) : Moves x x'

lemma Ctl.Moves.point {x x' : Ctl} (h : x.Moves x') : x'.point = x.point ∨
    ∃ p, x.point.proc = some p ∧ x'.point.proc = some p := by
  cases h with
  | refl => exact Or.inl rfl
  | within hx hx' hold hruns => exact Or.inr ⟨_, hx, hx'⟩

/-- `k'` differs from `k` in nothing that matters for the processes, except for where the
processor is: in a process control block, the descriptors only may differ. -/
structure SameProcs (k k' : Kernel) : Prop where
  scheduledTerm : k'.scheduledTerm = k.scheduledTerm
  termPid : ∀ t, (k'.terms t).pid = (k.terms t).pid
  pid : k'.pid = k.pid
  thisPcb : k'.thisPcb = k.thisPcb
  esp0 : k'.esp0 = k.esp0
  pageDirectory : k'.paging.pageDirectory = k.paging.pageDirectory
  userVidmapTable : k'.paging.userVidmapTable = k.paging.userVidmapTable
  pageTable0 : k'.paging.pageTable0 = k.paging.pageTable0 ∨
    k'.paging.pageTable0 = setPteAddr videoMemAddr (0xB9 + k.scheduledTerm) k.paging.pageTable0
  pcbs : ∃ fds, k'.pcbs = (k.setFds fds).pcbs

namespace SameProcs

variable {k k' : Kernel}

lemma setFds_self (k : Kernel) : k.setFds k.pcb.fdArr = k := CallEffect.setFds_self k

lemma of_kept {d : Display} (h : k.toDisplay.Kept d) : SameProcs k { k with toDisplay := d } :=
  ⟨h.scheduledTerm, h.pid, rfl, rfl, rfl, h.pageDirectory, h.userVidmapTable, h.pageTable0,
    k.pcb.fdArr, by rw [setFds_self]⟩

lemma of_effect {img : Image} {c : Call} (h : CallEffect img c k k') : SameProcs k k' := by
  have hpatch := Display.writePatch_kept k.toDisplay
  obtain ⟨fds, -, hpcbs⟩ := h.fds
  refine ⟨h.scheduledTerm, h.termPid, h.pid, h.thisPcb, h.esp0, ?_, ?_, ?_, fds, hpcbs⟩
  · rcases h.paging with hp | hp
    · rw [hp]
    · rw [hp, hpatch.pageDirectory]
  · rcases h.paging with hp | hp
    · rw [hp]
    · rw [hp, hpatch.userVidmapTable]
  · rcases h.paging with hp | hp
    · rw [hp]
      exact Or.inl rfl
    · rw [hp]
      exact hpatch.pageTable0

lemma setCtl {c : Ctl} (h : SameProcs k k') : SameProcs k { k' with ctl := c } :=
  ⟨h.scheduledTerm, h.termPid, h.pid, h.thisPcb, h.esp0, h.pageDirectory, h.userVidmapTable,
    h.pageTable0, h.pcbs⟩

lemma setRtc {r : Rtc} (h : SameProcs k k') : SameProcs k { k' with rtc := r } :=
  ⟨h.scheduledTerm, h.termPid, h.pid, h.thisPcb, h.esp0, h.pageDirectory, h.userVidmapTable,
    h.pageTable0, h.pcbs⟩

lemma refl (k : Kernel) : SameProcs k k := of_kept (Display.Kept.refl k.toDisplay)

lemma cur (h : SameProcs k k') : k'.cur = k.cur := by
  rw [Kernel.cur, Kernel.cur, h.scheduledTerm, h.termPid]

/-- Every process control block is the same up to its descriptors. -/
lemma pcbOf (h : SameProcs k k') (p : ℤ) :
    ∃ fds, k'.pcbOf p = { k.pcbOf p with fdArr := fds } := by
  obtain ⟨fds, hpcbs⟩ := h.pcbs
  rw [Kernel.pcbOf, hpcbs, Kernel.setFds, Kernel.setPcb]
  by_cases hp : pcbAddr p = k.thisPcb
  · refine ⟨fds, ?_⟩
    simp only [hp, Function.update_self, Kernel.pcbOf, Kernel.pcb]
  · exact ⟨(k.pcbOf p).fdArr, Function.update_of_ne hp _ _⟩

end SameProcs

/-! ### Creating a process -/

/-- `k'` is `k` after the process `i` was created for the scheduled terminal. -/
structure Created (k : Kernel) (i : ℤ) (caller : Caller) (args : Buf) (k' : Kernel) : Prop where
  scheduledTerm : k'.scheduledTerm = k.scheduledTerm
  termPid : ∀ t, (k'.terms t).pid = if t = k.scheduledTerm then i else (k.terms t).pid
  pid : k'.pid = Function.update k.pid i 1
  thisPcb : k'.thisPcb = pcbAddr i
  esp0 : k'.esp0 = stackBase i
  ctl : k'.ctl = ⟨.entering i, k.kstack⟩
  paging : k'.paging = (k.setUserPage i).paging
  pcbOf : ∀ q, k'.pcbOf q = if q = i then newPcb (k.pcbOf i) i k.cur caller args else k.pcbOf q

lemma created (k : Kernel) (i : ℤ) (caller : Caller) (args : Buf) :
    Created k i caller args ((k.allocate i).createProcess i caller args) where
  scheduledTerm := rfl
  termPid t := Kernel.setCur_pid { k.allocate i with thisPcb := pcbAddr i } i t
  pid := rfl
  thisPcb := rfl
  esp0 := rfl
  ctl := rfl
  paging := rfl
  pcbOf q := by
    let k₁ : Kernel := { k.allocate i with thisPcb := pcbAddr i }
    exact Kernel.setPcb_pcbOf (k₁.setCur i) i q (newPcb (k.pcbOf i) i k.cur caller args)

/-- The search finds the first free slot. -/
lemma slotFrom_spec {pid : ℤ → ℤ} {n j i : ℕ} (h : slotFrom pid n j = some i) :
    i < j + n ∧ pid i = 0 ∧ ∀ q : ℕ, j ≤ q → q < i → pid q ≠ 0 := by
  induction n generalizing j with
  | zero => exact absurd h (by simp [slotFrom])
  | succ n ih =>
    rw [slotFrom] at h
    by_cases hj : pid j = 0
    · rw [if_pos hj] at h
      obtain rfl := Option.some.inj h
      exact ⟨by omega, hj, fun q hq hlt => absurd hq (by omega)⟩
    · rw [if_neg hj] at h
      obtain ⟨hlt, h0, hfirst⟩ := ih h
      refine ⟨by omega, h0, fun q hq hqi => ?_⟩
      rcases Nat.eq_or_lt_of_le hq with rfl | hq
      · exact hj
      · exact hfirst q hq hqi

lemma freeSlot_spec {pid : ℤ → ℤ} {i : ℕ} (h : freeSlot pid = some i) :
    i < 6 ∧ pid i = 0 ∧ ∀ q : ℕ, q < i → pid q ≠ 0 := by
  obtain ⟨hlt, h0, hfirst⟩ := slotFrom_spec h
  exact ⟨by simpa [maxPids] using hlt, h0, fun q hq => hfirst q (Nat.zero_le _) hq⟩

/-- `syscall_execute` changes nothing when it fails, and takes the first free slot otherwise. -/
inductive Executed (img : Image) (k : Kernel) (caller : Caller) (command : Str) (buf : Buf) :
    Execute → Prop
  | fails (h : isValidExec img (parseCommand command).fileName buf = none ∨
      freeSlot k.pid = none) : Executed img k caller command buf .fails
  | starts {d : DirEntry} {i : ℕ} (hd : isValidExec img (parseCommand command).fileName buf = some d)
      (hi : freeSlot k.pid = some i) (hfits : LoadFits img d) :
      Executed img k caller command buf
        (.starts ((k.allocate i).createProcess i caller (parseCommand command).args))
  | faults {d : DirEntry} {i : ℕ} (hd : isValidExec img (parseCommand command).fileName buf = some d)
      (hi : freeSlot k.pid = some i) (hfits : ¬LoadFits img d) :
      Executed img k caller command buf (.faults (k.allocate i))

lemma executed (img : Image) (k : Kernel) (caller : Caller) (command : Str) (buf : Buf) :
    Executed img k caller command buf (syscallExecute img k caller command buf) := by
  rw [syscallExecute]
  cases hd : isValidExec img (parseCommand command).fileName buf with
  | none => exact .fails (Or.inl hd)
  | some d =>
    cases hi : freeSlot k.pid with
    | none => exact .fails (Or.inr hi)
    | some i =>
      by_cases hfits : LoadFits img d
      · simp only [if_pos hfits]
        exact .starts hd hi hfits
      · simp only [if_neg hfits]
        exact .faults hd hi hfits

lemma syscallExecute_fails {img : Image} {k : Kernel} {caller : Caller} {command : Str} {buf : Buf}
    (h : isValidExec img (parseCommand command).fileName buf = none ∨ freeSlot k.pid = none) :
    syscallExecute img k caller command buf = .fails := by
  rw [syscallExecute]
  rcases h with h | h
  · rw [h]
  · rw [h]
    cases isValidExec img (parseCommand command).fileName buf <;> rfl

lemma syscallExecute_starts {img : Image} {k : Kernel} {caller : Caller} {command : Str} {buf : Buf}
    {d : DirEntry} {i : ℕ} (hd : isValidExec img (parseCommand command).fileName buf = some d)
    (hi : freeSlot k.pid = some i) (hfits : LoadFits img d) :
    syscallExecute img k caller command buf =
      .starts ((k.allocate i).createProcess i caller (parseCommand command).args) := by
  simp only [syscallExecute, hd, hi, if_pos hfits]

/-! ### Ending a process -/

/-- `syscall_close` changes the descriptors of `this_pcb` only. -/
lemma syscallClose_setFds (k : Kernel) (fd : Int32) :
    ∃ fds, (syscallClose k fd).Leads (fun x => x.2) fun k' => k' = k.setFds fds := by
  rw [syscallClose]
  split
  · exact ⟨k.pcb.fdArr, (SameProcs.setFds_self k).symm⟩
  · dsimp only
    split
    · exact ⟨_, rfl⟩
    · exact ⟨_, rfl⟩

lemma clearOps_setFds (k : Kernel) (fd : ℕ) : clearOps k fd =
    k.setFds (Function.update k.pcb.fdArr fd { k.pcb.fdArr fd with fileOps := none }) := rfl

/-- So does the loop of `syscall_halt`. -/
lemma closeFrom_setFds (n fd : ℕ) (k : Kernel) :
    ∃ fds, Ends (fun k' => k' = k.setFds fds) (closeFrom n fd k) := by
  induction n generalizing fd k with
  | zero => exact ⟨k.pcb.fdArr, (SameProcs.setFds_self k).symm⟩
  | succ n ih =>
    obtain ⟨fds, hfds⟩ := syscallClose_setFds k (Int32.ofNat fd)
    rw [closeFrom]
    cases hc : syscallClose k (Int32.ofNat fd) with
    | done x =>
      rw [hc] at hfds
      obtain ⟨r, k₁⟩ := x
      obtain rfl : k₁ = k.setFds fds := hfds
      have hclear := clearOps_setFds (k.setFds fds) fd
      rw [Kernel.setFds_setFds] at hclear
      dsimp only
      rw [hclear]
      obtain ⟨fds', hfds'⟩ := ih (fd + 1) (k.setFds _)
      rw [Kernel.setFds_setFds] at hfds'
      exact ⟨fds', hfds'⟩
    | waits => exact ⟨k.pcb.fdArr, (SameProcs.setFds_self k).symm⟩
    | fault k₁ =>
      rw [hc] at hfds
      exact ⟨fds, hfds⟩

/-- `k'` is `k` after the process `c` of the scheduled terminal, with the process control block
`b`, has ended and its parent `p` has come back.  When closing the descriptors fails, the
parent is left with an exception. -/
structure Finished (k : Kernel) (c p : ℤ) (b : Pcb) (k' : Kernel) : Prop where
  scheduledTerm : k'.scheduledTerm = k.scheduledTerm
  termPid : ∀ t, (k'.terms t).pid = if t = k.scheduledTerm then p else (k.terms t).pid
  terms : ∀ t, t ≠ k.scheduledTerm → k'.terms t = k.terms t
  pid : k'.pid = Function.update k.pid b.processId 0
  paging : k'.paging = (k.setUserPage p).paging
  pcbOf : ∃ fds, ∀ q, k'.pcbOf q =
    if q = c then { b with fdArr := fds, active := false, processId := -1 } else k.pcbOf q
  back : (k'.thisPcb = pcbAddr p ∧ k'.esp0 = stackBase p ∧ k'.ctl = b.saved.resume) ∨
    k'.ctl = b.saved.raise p

/-- The state in which `syscall_halt` closes the descriptors. -/
def Kernel.haltClosing (k : Kernel) : Kernel :=
  let parent := k.pcb.parentId
  let k₁ := { k with currentPid := parent }.setCur parent
  let k₂ := { k₁ with pid := Function.update k.pid k.pcb.processId 0 }
  (k₂.setPcb k.thisPcb { k.pcb with active := false, processId := -1 }).setUserPage parent

lemma haltFinish_eq (k : Kernel) : k.haltFinish =
    match closeFrom 6 2 k.haltClosing with
    | .error k' => { k' with ctl := k.pcb.saved.raise k.pcb.parentId }
    | .ok k' => { k' with thisPcb := pcbAddr k.pcb.parentId, esp0 := stackBase k.pcb.parentId,
                          ctl := k.pcb.saved.resume } := rfl

lemma haltClosing_pcbOf (k : Kernel) (c : ℤ) (hthis : k.thisPcb = pcbAddr c) (fds : FdArr)
    (q : ℤ) : (k.haltClosing.setFds fds).pcbOf q =
      if q = c then { k.pcbOf c with fdArr := fds, active := false, processId := -1 }
      else k.pcbOf q := by
  have hpcb : k.pcb = k.pcbOf c := by rw [Kernel.pcb, hthis, Kernel.pcbOf]
  have hcl : k.haltClosing.pcb = { k.pcbOf c with active := false, processId := -1 } := by
    rw [← hpcb]
    exact Function.update_self _ _ _
  have hset : k.haltClosing.setFds fds = k.haltClosing.setPcb (pcbAddr c)
      { k.haltClosing.pcb with fdArr := fds } := by
    rw [Kernel.setFds, ← hthis]
    rfl
  rw [hset, Kernel.setPcb_pcbOf, hcl]
  by_cases hq : q = c
  · rw [if_pos hq, if_pos hq]
  · rw [if_neg hq, if_neg hq]
    exact Function.update_of_ne (fun he => hq (pcbAddr_inj.1 (he.trans hthis))) _ _

/-- What `syscall_halt` leaves as it is in every process control block. -/
structure Pcb.Lasts (b b' : Pcb) : Prop where
  parentId : b'.parentId = b.parentId
  saved : b'.saved = b.saved
  scheduled : b'.scheduled = b.scheduled
  args : b'.args = b.args

lemma setFds_lasts (k : Kernel) (fds : FdArr) (a : ℤ) :
    (k.pcbs a).Lasts ((k.setFds fds).pcbs a) := by
  have hset : (k.setFds fds).pcbs = Function.update k.pcbs k.thisPcb { k.pcb with fdArr := fds } :=
    rfl
  rw [hset]
  by_cases ha : a = k.thisPcb
  · rw [ha, Function.update_self]
    exact ⟨rfl, rfl, rfl, rfl⟩
  · rw [Function.update_of_ne ha]
    exact ⟨rfl, rfl, rfl, rfl⟩

lemma haltFinish_lasts (k : Kernel) (a : ℤ) : (k.pcbs a).Lasts (k.haltFinish.pcbs a) := by
  have hclosing : (k.pcbs a).Lasts (k.haltClosing.pcbs a) := by
    by_cases ha : a = k.thisPcb
    · have hself : k.haltClosing.pcbs k.thisPcb = { k.pcb with active := false, processId := -1 } :=
        Function.update_self ..
      rw [ha, hself]
      exact ⟨rfl, rfl, rfl, rfl⟩
    · have hother : k.haltClosing.pcbs a = k.pcbs a := Function.update_of_ne ha ..
      rw [hother]
      exact ⟨rfl, rfl, rfl, rfl⟩
  obtain ⟨fds, hends⟩ := closeFrom_setFds 6 2 k.haltClosing
  have hfds := setFds_lasts k.haltClosing fds a
  have hboth : (k.pcbs a).Lasts ((k.haltClosing.setFds fds).pcbs a) :=
    ⟨hfds.parentId.trans hclosing.parentId, hfds.saved.trans hclosing.saved,
      hfds.scheduled.trans hclosing.scheduled, hfds.args.trans hclosing.args⟩
  rw [haltFinish_eq]
  cases hclose : closeFrom 6 2 k.haltClosing with
  | error k₁ =>
    rw [hclose] at hends
    obtain rfl : k₁ = k.haltClosing.setFds fds := hends
    exact hboth
  | ok k₁ =>
    rw [hclose] at hends
    obtain rfl : k₁ = k.haltClosing.setFds fds := hends
    exact hboth

/-- The end of a process does not concern the RTC. -/
lemma haltFinish_rtc (k : Kernel) : k.haltFinish.rtc = k.rtc := by
  obtain ⟨fds, hends⟩ := closeFrom_setFds 6 2 k.haltClosing
  rw [haltFinish_eq]
  cases hclose : closeFrom 6 2 k.haltClosing with
  | error k₁ =>
    rw [hclose] at hends
    obtain rfl : k₁ = k.haltClosing.setFds fds := hends
    rfl
  | ok k₁ =>
    rw [hclose] at hends
    obtain rfl : k₁ = k.haltClosing.setFds fds := hends
    rfl

lemma haltFinish_finished (k : Kernel) (c : ℤ) (hthis : k.thisPcb = pcbAddr c) :
    Finished k c (k.pcbOf c).parentId (k.pcbOf c) k.haltFinish := by
  have hpcb : k.pcb = k.pcbOf c := by rw [Kernel.pcb, hthis, Kernel.pcbOf]
  obtain ⟨fds, hends⟩ := closeFrom_setFds 6 2 k.haltClosing
  have hpcbs := haltClosing_pcbOf k c hthis fds
  rw [haltFinish_eq, hpcb]
  cases hclose : closeFrom 6 2 k.haltClosing with
  | error k₁ =>
    rw [hclose] at hends
    obtain rfl : k₁ = k.haltClosing.setFds fds := hends
    refine ⟨rfl, fun t => ?_, fun t ht => Function.update_of_ne ht _ _, by rw [← hpcb]; rfl,
      by rw [← hpcb]; rfl, ⟨fds, hpcbs⟩, Or.inr rfl⟩
    rw [← hpcb]
    exact Kernel.setCur_pid { k with currentPid := k.pcb.parentId } _ t
  | ok k₁ =>
    rw [hclose] at hends
    obtain rfl : k₁ = k.haltClosing.setFds fds := hends
    refine ⟨rfl, fun t => ?_, fun t ht => Function.update_of_ne ht _ _, by rw [← hpcb]; rfl,
      by rw [← hpcb]; rfl, ⟨fds, hpcbs⟩, Or.inl ⟨rfl, rfl, rfl⟩⟩
    rw [← hpcb]
    exact Kernel.setCur_pid { k with currentPid := k.pcb.parentId } _ t

/-- `syscall_halt` ends the process of the scheduled terminal: a base shell is about to be
restarted, any other process gives way to its parent. -/
lemma syscallHalt_cases (k : Kernel) :
    ((k.pcbOf k.cur).parentId = -1 ∧
      k.syscallHalt = { k with thisPcb := pcbAddr k.cur, pid := Function.update k.pid k.cur 0,
                               ctl := ⟨.restart k.cur, k.kstack⟩ }) ∨
    ((k.pcbOf k.cur).parentId ≠ -1 ∧
      Finished k k.cur (k.pcbOf k.cur).parentId (k.pcbOf k.cur) k.syscallHalt) := by
  by_cases hparent : (k.pcbOf k.cur).parentId = -1
  · exact Or.inl ⟨hparent, if_pos hparent⟩
  · refine Or.inr ⟨hparent, ?_⟩
    have heq : k.syscallHalt = Kernel.haltFinish { k with thisPcb := pcbAddr k.cur } :=
      if_neg hparent
    have hfin := haltFinish_finished { k with thisPcb := pcbAddr k.cur } k.cur rfl
    rw [heq]
    exact ⟨hfin.scheduledTerm, hfin.termPid, hfin.terms, hfin.pid, hfin.paging, hfin.pcbOf,
      hfin.back⟩

/-! ### A tick -/

/-- `k'` is `k` after a tick of the PIT. -/
structure Ticked (k k' : Kernel) : Prop where
  scheduledTerm : k'.scheduledTerm = (k.scheduledTerm + 1) % numTtys
  termPid : ∀ t, (k'.terms t).pid = (k.terms t).pid
  pid : k'.pid = k.pid
  pcbOf : ∀ q, k'.pcbOf q =
    if q = k.cur ∧ k.cur ≠ -1 then { k.pcbOf k.cur with scheduled := k.interrupted }
    else k.pcbOf q
  next : (k'.cur = -1 ∧ k'.ctl = ⟨.boot, k.kstack⟩ ∧
      k'.paging.pageDirectory = k.paging.pageDirectory) ∨
    (k'.cur ≠ -1 ∧ k'.thisPcb = pcbAddr k'.cur ∧
      k'.esp0 = stackBase (k'.pcbOf k'.cur).processId ∧
      k'.ctl = (k'.pcbOf k'.cur).scheduled ∧
      k'.paging.pageDirectory = setPdeAddr userPageIndex (userFrame (k'.pcbOf k'.cur).processId)
        k.paging.pageDirectory)
  video : ∃ page, 0xB8 ≤ page ∧ page ≤ 0xBB ∧
    k'.paging.pageTable0 = setPteAddr videoMemAddr page k.paging.pageTable0 ∧
    k'.paging.userVidmapTable = setPteAddr videoMemAddr page k.paging.userVidmapTable

lemma saveContext_pcbOf (k : Kernel) (q : ℤ) : k.saveContext.pcbOf q =
    if q = k.cur ∧ k.cur ≠ -1 then { k.pcbOf k.cur with scheduled := k.interrupted }
    else k.pcbOf q := by
  rw [Kernel.saveContext]
  by_cases hcur : k.cur = -1
  · rw [if_neg (by simpa using hcur), if_neg (fun h => h.2 hcur)]
  · rw [if_pos hcur, Kernel.setPcb_pcbOf]
    exact if_congr (by tauto) rfl rfl

/-- `pit_handler` reaches the next terminal, maps its screen and leaves the rest. -/
lemma pitAdvance_spec (d : Display) :
    d.pitAdvance.scheduledTerm = (d.scheduledTerm + 1) % numTtys ∧
    d.pitAdvance.terms = d.terms ∧
    d.pitAdvance.paging.pageDirectory = d.paging.pageDirectory ∧
    ∃ page, 0xB8 ≤ page ∧ page ≤ 0xBB ∧
      d.pitAdvance.paging.pageTable0 = setPteAddr videoMemAddr page d.paging.pageTable0 ∧
      d.pitAdvance.paging.userVidmapTable
        = setPteAddr videoMemAddr page d.paging.userVidmapTable := by
  have hlt : (d.scheduledTerm + 1) % numTtys < 3 := Nat.mod_lt _ (by decide)
  rw [Display.pitAdvance]
  dsimp only
  split
  · exact ⟨rfl, rfl, rfl, videoMemAddr, by decide, by decide, rfl, rfl⟩
  · refine ⟨rfl, rfl, rfl, _, ?_, ?_, rfl, rfl⟩
    · rw [videoMemAddr]
      omega
    · rw [videoMemAddr]
      omega

lemma saveContext_fields (k : Kernel) :
    k.saveContext.toDisplay = k.toDisplay ∧ k.saveContext.pid = k.pid := by
  rw [Kernel.saveContext]
  split
  · exact ⟨rfl, rfl⟩
  · exact ⟨rfl, rfl⟩

lemma pitHandler_ticked (k : Kernel) : Ticked k k.pitHandler := by
  obtain ⟨hdisp, hpid⟩ := saveContext_fields k
  have hpcb := saveContext_pcbOf k
  obtain ⟨hsched, hterms, hdir, page, hlo, hhi, hpt, hvm⟩ := pitAdvance_spec k.toDisplay
  rw [Kernel.pitHandler]
  -- from here on the saved state is any state with the fields above
  generalize k.saveContext = k₁ at hdisp hpid hpcb ⊢
  rw [← hdisp] at hsched hterms hdir hpt hvm
  have hcur : ∀ t, (k₁.toDisplay.pitAdvance.terms t).pid = (k.terms t).pid := by
    intro t
    rw [hterms, hdisp]
  rw [Kernel.switchContext]
  dsimp only
  split
  · rename_i hnone
    refine ⟨by rw [hsched, hdisp], hcur, hpid, hpcb, Or.inl ⟨hnone, rfl, ?_⟩, page, hlo, hhi, ?_, ?_⟩
    · rw [hdir, hdisp]
    · rw [hpt, hdisp]
    · rw [hvm, hdisp]
  · rename_i hsome
    refine ⟨by rw [← hdisp]; exact hsched, hcur, hpid, hpcb, Or.inr ⟨hsome, rfl, rfl, rfl, ?_⟩,
      page, hlo, hhi, by rw [← hdisp]; exact hpt, by rw [← hdisp]; exact hvm⟩
    rw [← hdisp, ← hdir]
    rfl

/-! ### What a step can do -/

/-- A step `e` from `k` to the state after it, and where in the code the processor stands. -/
inductive Steps (img : Image) (k : Kernel) : Event → Kernel → Prop
  | tick (hpt : k.ctl.point.Enabled) : Steps img k .tick k.pitHandler
  | key {control : Bool} {chr : UInt8} {k' : Kernel} (hpt : k.ctl.point.Enabled)
      (hs : keyStep control chr k = some k') : Steps img k (.key control chr) k'
  | execute {p : ℤ} {command : Str} {buf : Buf} {k' : Kernel} (hpt : k.ctl.point = .user p)
      (hs : startStep img k (.linkage p) command buf k ⟨.faulted p .pageFault, k.kstack⟩ = some k') :
      Steps img k (.execute command buf) k'
  | bootExec {buf : Buf} {k' : Kernel} (hpt : k.ctl.point = .boot)
      (hs : startStep img k .pit shellName buf { k with ctl := ⟨.lost, 0⟩ } ⟨.lost, 0⟩ = some k') :
      Steps img k (.bootExec buf) k'
  | restartExec {q : ℤ} {buf : Buf} {k' : Kernel} (hpt : k.ctl.point = .restart q)
      (hs : startStep img k .halt shellName buf k.haltFinish ⟨.faulted q .pageFault, k.kstack⟩ =
        some k') :
      Steps img k (.restartExec buf) k'
  | enter {c : ℤ} (hpt : k.ctl.point = .entering c) :
      Steps img k .enter { k with ctl := ⟨.user c, k.kstack⟩ }
  | call {p : ℤ} {c : Call} {k' : Kernel} (hpt : k.ctl.point = .user p)
      (hno : ¬EnablesInterrupts img k c) (hs : endCall p c k (k.call img c) = some k') :
      Steps img k (.call c) k'
  | begin {p : ℤ} {c : Call} (hpt : k.ctl.point = .user p) (hin : EnablesInterrupts img k c) :
      Steps img k (.begin c) { beginCall k c with ctl := ⟨.sys p c, k.kstack⟩ }
  | finish {p : ℤ} {c : Call} {k' : Kernel} (hpt : k.ctl.point = .sys p c)
      (hs : endCall p c k (k.call img c) = some k') : Steps img k .finish k'
  | raise {e : Exception} {k' : Kernel} (hs : raiseStep e k = some k') : Steps img k (.raise e) k'
  | report {p : ℤ} {e : Exception} {n : ℕ} (hpt : k.ctl.point.reports? = some (p, e, n)) :
      Steps img k .report (reportStep p e n k)
  | halt {p : ℤ} (hpt : k.ctl.point = .user p) : Steps img k .halt k.syscallHalt
  | raisedHalt {p : ℤ} {e : Exception} (hpt : k.ctl.point = .raising p e 0) :
      Steps img k .raisedHalt k.syscallHalt

/-- A step is one of the machine's, from a point that admits it. -/
theorem step_cases {img : Image} {e : Event} {k k' : Kernel} (hs : step img e k = some k') :
    Steps img k e k' := by
  rw [step.eq_def] at hs
  dsimp only at hs
  split at hs
  case h_1 =>
    obtain ⟨hpt, heq⟩ := Option.ite_none_right_eq_some.1 hs
    obtain rfl := Option.some.inj heq
    exact .tick hpt
  case h_2 =>
    obtain ⟨hpt, heq⟩ := Option.ite_none_right_eq_some.1 hs
    exact .key hpt heq
  case h_3 hpt => exact .execute hpt hs
  case h_4 hpt => exact .bootExec hpt hs
  case h_5 hpt => exact .restartExec hpt hs
  case h_6 hpt =>
    obtain rfl := Option.some.inj hs
    exact .enter hpt
  case h_7 hpt =>
    split at hs
    · exact absurd hs (by simp)
    · rename_i hno
      exact .call hpt hno hs
  case h_8 hpt =>
    split at hs
    · rename_i hin
      obtain rfl := Option.some.inj hs
      exact .begin hpt hin
    · exact absurd hs (by simp)
  case h_9 hpt => exact .finish hpt hs
  case h_10 => exact .raise hs
  case h_11 hpt =>
    obtain rfl := Option.some.inj hs
    exact .report (by rw [hpt]; rfl)
  case h_12 hpt =>
    obtain rfl := Option.some.inj hs
    exact .report (by rw [hpt]; rfl)
  case h_13 hpt =>
    obtain rfl := Option.some.inj hs
    exact .halt hpt
  case h_14 hpt =>
    obtain rfl := Option.some.inj hs
    exact .raisedHalt hpt
  case h_15 => exact absurd hs (by simp)

/-- The handler of an exception of the program starts within the process. -/
lemma raiseStep_eq_some {e : Exception} {k k' : Kernel} (hs : raiseStep e k = some k') :
    ∃ p, k.ctl.point.proc = some p ∧ k' = { k with ctl := ⟨.raising p e 3, k.kstack⟩ } := by
  rw [raiseStep] at hs
  split at hs
  · rename_i p hp
    exact ⟨p, by rw [hp]; rfl, (Option.some.inj hs).symm⟩
  · rename_i p c hp
    exact ⟨p, by rw [hp]; rfl, (Option.some.inj hs).symm⟩
  · exact absurd hs (by simp)

/-- The keyboard handler returns, or starts the handler of a page fault within the process that it
has interrupted. -/
lemma keyStep_eq_some {control : Bool} {chr : UInt8} {k k' : Kernel}
    (hs : keyStep control chr k = some k') :
    ∃ d, (k.toDisplay.keyboardHandler control chr = .ok d ∧ k' = { k with toDisplay := d }) ∨
      (k.toDisplay.keyboardHandler control chr = .error d ∧ ∃ p, k.ctl.point.proc = some p ∧
        k' = { k with toDisplay := d, ctl := ⟨.faulted p .pageFault, k.kstack⟩ }) := by
  rw [keyStep] at hs
  split at hs
  · rename_i d hd
    exact ⟨d, Or.inl ⟨hd, (Option.some.inj hs).symm⟩⟩
  · rename_i d hd
    obtain ⟨p, hp, rfl⟩ := Option.map_eq_some_iff.1 hs
    exact ⟨d, Or.inr ⟨hd, p, hp, rfl⟩⟩

/-- `report_error` goes on after a text, or starts anew for a page fault of its own. -/
lemma reportStep_cases (p : ℤ) (e : Exception) (n : ℕ) (k : Kernel) :
    ∃ d, (k.toDisplay.println (e.report n) = .ok d ∧ reportStep p e n k =
        { k with toDisplay := d, ctl := ⟨.raising p e n, k.kstack⟩ }) ∨
      (k.toDisplay.println (e.report n) = .error d ∧ reportStep p e n k =
        { k with toDisplay := d, ctl := ⟨.faulted p .pageFault, k.kstack⟩ }) := by
  rw [reportStep]
  cases hr : k.toDisplay.println (e.report n) with
  | ok d => exact ⟨d, Or.inl ⟨rfl, rfl⟩⟩
  | error d => exact ⟨d, Or.inr ⟨rfl, rfl⟩⟩

/-- The event executes `command` for a caller that stands where it can. -/
inductive Starts (k : Kernel) : Event → Caller → Str → Buf → Prop
  | execute {p : ℤ} (command : Str) (buf : Buf) (h : k.ctl.point = .user p) :
      Starts k (.execute command buf) (.linkage p) command buf
  | boot (buf : Buf) (h : k.ctl.point = .boot) : Starts k (.bootExec buf) .pit shellName buf
  | restart {q : ℤ} (buf : Buf) (h : k.ctl.point = .restart q) :
      Starts k (.restartExec buf) .halt shellName buf

/-- A call of `syscall_execute` comes from a caller that stands where it can. -/
lemma starts_of_step {img : Image} {e : Event} {k k' : Kernel} (he : e.starts = true)
    (hs : step img e k = some k') : ∃ caller command buf, Starts k e caller command buf := by
  cases step_cases hs with
  | execute hpt => exact ⟨_, _, _, .execute _ _ hpt⟩
  | bootExec hpt => exact ⟨_, _, _, .boot _ hpt⟩
  | restartExec hpt => exact ⟨_, _, _, .restart _ hpt⟩
  | _ => exact absurd he (by simp [Event.starts])

/-- A call of `syscall_execute` that fails leaves the process control blocks and the RTC, or ends
the shell that was to be restarted. -/
lemma Starts.step {img : Image} {e : Event} {k : Kernel} {caller : Caller} {command : Str}
    {buf : Buf} (h : Starts k e caller command buf) : ∃ failed fault,
      step img e k = startStep img k caller command buf failed fault ∧
        (∀ a, (k.pcbs a).Lasts (failed.pcbs a)) ∧ failed.rtc = k.rtc := by
  cases h with
  | @execute p _ _ hpt =>
    exact ⟨k, ⟨.faulted p .pageFault, k.kstack⟩, by simp only [WnajOS.step, hpt],
      fun a => ⟨rfl, rfl, rfl, rfl⟩, rfl⟩
  | boot _ hpt =>
    exact ⟨{ k with ctl := ⟨.lost, 0⟩ }, ⟨.lost, 0⟩, by simp only [WnajOS.step, hpt],
      fun a => ⟨rfl, rfl, rfl, rfl⟩, rfl⟩
  | @restart q _ hpt =>
    exact ⟨k.haltFinish, ⟨.faulted q .pageFault, k.kstack⟩, by simp only [WnajOS.step, hpt],
      haltFinish_lasts k, haltFinish_rtc k⟩

/-- What one step can do. -/
inductive StepEffect (img : Image) (k : Kernel) (live : Ledger) (e : Event) (k' : Kernel) :
    Ledger → Prop
  | same (h : SameProcs k k') (hpcbs : k'.pcbs = k.pcbs) (hmoves : k.ctl.Moves k'.ctl) :
      StepEffect img k live e k' live
  | called {p : ℤ} {c : Call} {fds : FdArr} (he : e.call? k = some c)
      (hp : k.ctl.point.runs = some p) (h : SameProcs k k')
      (hfds : FdsChange img k.pcb.fdArr c fds) (hpcbs : k'.pcbs = (k.setFds fds).pcbs)
      (hmoves : k.ctl.Moves k'.ctl) : StepEffect img k live e k' live
  | tick (he : e = .tick) (h : Ticked k k') : StepEffect img k live e k' live
  | created {caller : Caller} {command : Str} {buf : Buf} {d : DirEntry} {i : ℕ}
      (he : Starts k e caller command buf)
      (hd : isValidExec img (parseCommand command).fileName buf = some d)
      (hi : freeSlot k.pid = some i) (hfits : LoadFits img d)
      (h : Created k i caller (parseCommand command).args k') :
      StepEffect img k live e k'
        (Function.update live k.scheduledTerm ((i : ℤ) :: live k.scheduledTerm))
  | faulted {caller : Caller} {command : Str} {buf : Buf} {d : DirEntry} {i : ℕ}
      (he : Starts k e caller command buf)
      (hd : isValidExec img (parseCommand command).fileName buf = some d)
      (hi : freeSlot k.pid = some i) (hfits : ¬LoadFits img d)
      (h : ∃ c, k' = { k.allocate i with ctl := c } ∧
        (∀ p, caller = .linkage p → c.point = .faulted p .pageFault)) :
      StepEffect img k live e k' live
  | failed {caller : Caller} {command : Str} {buf : Buf} (he : Starts k e caller command buf)
      (hcaller : ¬caller.IsLinkage)
      (hd : isValidExec img (parseCommand command).fileName buf = none ∨ freeSlot k.pid = none) :
      StepEffect img k live e k' live
  | halted {p : ℤ} (he : e = .halt ∨ e = .raisedHalt) (hp : k.ctl.point.proc = some p)
      (h : k' = k.syscallHalt) :
      StepEffect img k live e k'
        (Function.update live k.scheduledTerm ((live k.scheduledTerm).erase k.cur))

/-- The handler of an exception in a call is one for the process that made it. -/
lemma Kernel.faultOf_proc (p : ℤ) (k : Kernel) (c : Call) : (k.faultOf p c).proc = some p ∧
    (k.faultOf p c).entering? = none ∧ (k.faultOf p c).runs = none := by
  cases c <;> exact ⟨rfl, rfl, rfl⟩

section Effects

variable {img : Image} {k k' : Kernel} {live : Ledger}

/-- The end of a call changes what the call changes. -/
lemma endCall_effect {e : Event} {p : ℤ} {c : Call} {o : Outcome (Int32 × Kernel)}
    (ho : o.Leads (fun x => x.2) (CallEffect img c k)) (he : e.call? k = some c)
    (hp : k.ctl.point.runs = some p) (hs : endCall p c k o = some k') :
    StepEffect img k live e k' live := by
  cases o with
  | done x =>
    obtain rfl := Option.some.inj hs
    obtain ⟨fds, hfds, hpcbs⟩ := CallEffect.fds ho
    exact .called he hp (SameProcs.of_effect ho).setCtl hfds hpcbs
      (.within (Point.proc_of_runs hp) rfl rfl (Or.inr hp))
  | waits => exact absurd hs (by simp [endCall])
  | fault k₁ =>
    obtain rfl := Option.some.inj hs
    obtain ⟨fds, hfds, hpcbs⟩ := CallEffect.fds ho
    obtain ⟨hproc, hold, hruns⟩ := k.faultOf_proc p c
    exact .called he hp (SameProcs.of_effect ho).setCtl hfds hpcbs
      (.within (Point.proc_of_runs hp) hproc hold (Or.inl hruns))

/-- An exception moves the processor within the process. -/
lemma raise_effect {e : Event} {x : Exception} (hs : raiseStep x k = some k') :
    StepEffect img k live e k' live := by
  obtain ⟨p, hp, rfl⟩ := raiseStep_eq_some hs
  exact .same (SameProcs.refl k).setCtl rfl (.within hp rfl rfl (Or.inl rfl))

/-- `report_error` prints within the process that it halts. -/
lemma report_effect {e : Event} {p : ℤ} {x : Exception} {n : ℕ}
    (hp : k.ctl.point.proc = some p) : StepEffect img k live e (reportStep p x n k) live := by
  have hkeeps := Display.println_keeps (x.report n) k.toDisplay
  obtain ⟨d, ⟨hr, heq⟩ | ⟨hr, heq⟩⟩ := reportStep_cases p x n k
  · rw [heq]
    rw [hr] at hkeeps
    exact .same (SameProcs.of_kept hkeeps).setCtl rfl (.within hp rfl rfl (Or.inl rfl))
  · rw [heq]
    rw [hr] at hkeeps
    exact .same (SameProcs.of_kept hkeeps).setCtl rfl (.within hp rfl rfl (Or.inl rfl))

/-- A key changes nothing but the display, or raises an exception. -/
lemma key_effect {e : Event} {control : Bool} {chr : UInt8}
    (hs : keyStep control chr k = some k') : StepEffect img k live e k' live := by
  have hkeeps := Display.keyboardHandler_keeps control chr k.toDisplay
  obtain ⟨d, ⟨hk, rfl⟩ | ⟨hk, p, hp, rfl⟩⟩ := keyStep_eq_some hs
  · rw [hk] at hkeeps
    exact .same (SameProcs.of_kept hkeeps) rfl (.refl _)
  · rw [hk] at hkeeps
    exact .same (SameProcs.of_kept hkeeps).setCtl rfl (.within hp rfl rfl (Or.inl rfl))

/-- A call of `syscall_execute`. -/
lemma start_effect {e : Event} {caller : Caller} {command : Str} {buf : Buf} {failed : Kernel}
    {fault : Ctl} (he : Starts k e caller command buf)
    (hfailed : failed.ctl.point.entering? = none) (hfault : fault.point.entering? = none)
    (hlinkage : ∀ p, caller = .linkage p → failed = k ∧ fault.point = .faulted p .pageFault)
    (hs : startStep img k caller command buf failed fault = some k') :
    StepEffect img k live e k' (liveAfter e k k' live) := by
  have hstarts : e.starts = true := by cases he <;> rfl
  have hex := executed img k caller command buf
  rw [startStep] at hs
  generalize syscallExecute img k caller command buf = r at hs hex
  rw [liveAfter, if_pos hstarts]
  cases hex with
  | fails hd =>
    obtain rfl := Option.some.inj hs
    rw [hfailed]
    cases caller with
    | linkage p =>
      obtain ⟨rfl, -⟩ := hlinkage p rfl
      exact .same (SameProcs.refl _) rfl (.refl _)
    | pit => exact .failed he id hd
    | halt => exact .failed he id hd
  | starts hd hi hfits =>
    obtain rfl := Option.some.inj hs
    exact .created he hd hi hfits (created k _ caller _)
  | faults hd hi hfits =>
    obtain rfl := Option.some.inj hs
    dsimp only
    rw [hfault]
    exact .faulted he hd hi hfits ⟨fault, rfl, fun p hp => (hlinkage p hp).2⟩

/-- `syscall_halt` never ends at the entry of a program. -/
lemma haltFinish_entering (k : Kernel) : k.haltFinish.ctl.point.entering? = none := by
  have hctl : k.haltFinish.ctl = k.pcb.saved.resume ∨
      k.haltFinish.ctl = k.pcb.saved.raise k.pcb.parentId := by
    rw [haltFinish_eq]
    cases closeFrom 6 2 k.haltClosing with
    | error k₁ => exact Or.inr rfl
    | ok k₁ => exact Or.inl rfl
  rcases hctl with hctl | hctl
  · rw [hctl]
    cases k.pcb.saved <;> rfl
  · rw [hctl]
    cases k.pcb.saved <;> rfl

/-- **What one step of the machine can do.** -/
theorem step_effect {e : Event} {m m' : Machine} (hstep : m.step img e = some m') :
    StepEffect img m.kernel m.live e m'.kernel m'.live := by
  obtain ⟨k', hs, rfl⟩ := Option.map_eq_some_iff.1 hstep
  clear hstep
  obtain ⟨k, live⟩ := m
  dsimp only at hs ⊢
  cases step_cases hs with
  | tick => exact .tick rfl (pitHandler_ticked k)
  | key _ hs => exact key_effect hs
  | raise hs => exact raise_effect hs
  | execute hpt hs =>
    refine start_effect (.execute _ _ hpt) (hpt ▸ rfl) rfl (fun q hq => ⟨rfl, ?_⟩) hs
    rw [Caller.linkage.inj hq]
  | bootExec hpt hs =>
    exact start_effect (.boot _ hpt) rfl rfl (fun q hq => absurd hq (by simp)) hs
  | restartExec hpt hs =>
    exact start_effect (.restart _ hpt) (haltFinish_entering k) rfl
      (fun q hq => absurd hq (by simp)) hs
  | enter hpt =>
    exact .same (SameProcs.refl k).setCtl rfl
      (.within (hpt ▸ rfl) rfl rfl (Or.inr (hpt ▸ rfl)))
  | call hpt _ hs => exact endCall_effect (call_effect img k _) rfl (hpt ▸ rfl) hs
  | @begin p c hpt _ =>
    -- only a write does anything before it enables interrupts
    have hsame : SameProcs k (beginCall k c) ∧ (beginCall k c).pcbs = k.pcbs := by
      cases c with
      | write fd buf nbytes => exact ⟨SameProcs.of_kept (Display.writePatch_kept _), rfl⟩
      | _ => exact ⟨SameProcs.refl k, rfl⟩
    exact .same hsame.1.setCtl hsame.2 (.within (hpt ▸ rfl) rfl rfl (Or.inr (hpt ▸ rfl)))
  | finish hpt hs =>
    exact endCall_effect (call_effect img k _) (by simp [Event.call?, hpt]) (hpt ▸ rfl) hs
  | report hpt => exact report_effect (Point.proc_of_reports hpt)
  | @halt p hpt => exact .halted (p := p) (Or.inl rfl) (by rw [hpt]; rfl) rfl
  | @raisedHalt p _ hpt => exact .halted (p := p) (Or.inr rfl) (by rw [hpt]; rfl) rfl

end Effects

end WnajOS
