import WnajOS.FileSystem.Lookup
import WnajOS.Kernel

/-!
# What a call on descriptors can do to the kernel

A process changes the kernel through `open`, `close`, `read` and `write` on its descriptors.
`CallEffect` says once what such a call can change: the descriptor array of `this_pcb`, in one
of four ways, the line of its terminal, the RTC and what is on the display.  The invariants of
the later files are derived from it.
-/

namespace WnajOS

/-- The value a call returns and the state after it. -/
def Kernel.call (img : Image) (k : Kernel) : Call → Outcome (Int32 × Kernel)
  | .openFile filename => syscallOpen img k filename
  | .close fd => syscallClose k fd
  | .read fd buf nbytes => (syscallRead img k fd buf nbytes).map fun (r, _, k) => (r, k)
  | .write fd buf nbytes => syscallWrite k fd buf nbytes

/-- What a call can do to the descriptor array. -/
inductive FdsChange (img : Image) (fds : FdArr) : Call → FdArr → Prop
  | same (c : Call) : FdsChange img fds c fds
  | opened {filename : Str} {m : ℕ} {d : DirEntry} (hm : vacantFrom fds 7 0 = some m)
      (hd : readDentryByName img filename = some d) :
      FdsChange img fds (.openFile filename) (Function.update fds m (newEntry (fds m) d))
  | closed {fd : Int32} (h2 : 2 ≤ fdIndex fd) (h8 : fdIndex fd < 8) :
      FdsChange img fds (.close fd)
        (Function.update fds (fdIndex fd) (closedEntry (fds (fdIndex fd))))
  | moved {fd nbytes : Int32} {buf : Option Buf} (h8 : fdIndex fd < 8)
      (hflags : (fds (fdIndex fd)).flags ≠ 0)
      (hops : (fds (fdIndex fd)).fileOps = some .file ∨ (fds (fdIndex fd)).fileOps = some .dir)
      (pos : UInt32) :
      FdsChange img fds (.read fd buf nbytes)
        (Function.update fds (fdIndex fd) { fds (fdIndex fd) with filePos := pos })

/-- What a call can do to the kernel. -/
structure CallEffect (img : Image) (c : Call) (k k' : Kernel) : Prop where
  fds : ∃ fds, FdsChange img k.pcb.fdArr c fds ∧ k'.pcbs = (k.setFds fds).pcbs
  pid : k'.pid = k.pid
  currentPid : k'.currentPid = k.currentPid
  thisPcb : k'.thisPcb = k.thisPcb
  esp0 : k'.esp0 = k.esp0
  ctl : k'.ctl = k.ctl
  scheduledTerm : k'.scheduledTerm = k.scheduledTerm
  visibleTerm : k'.visibleTerm = k.visibleTerm
  termPid : ∀ t, (k'.terms t).pid = (k.terms t).pid
  paging : k'.paging = k.paging ∨ k'.paging = k.toDisplay.writePatch.paging

namespace CallEffect

variable {img : Image} {c : Call} {k k' : Kernel}

/-- A call that changes nothing but the array. -/
lemma of_fds {fds : FdArr} (h : FdsChange img k.pcb.fdArr c fds) :
    CallEffect img c k (k.setFds fds) :=
  ⟨⟨fds, h, rfl⟩, rfl, rfl, rfl, rfl, rfl, rfl, rfl, fun _ => rfl, Or.inl rfl⟩

lemma setFds_self (k : Kernel) : k.setFds k.pcb.fdArr = k := by
  simp only [Kernel.setFds, Kernel.setPcb, Kernel.pcb, Function.update_eq_self]

lemma refl (img : Image) (c : Call) (k : Kernel) : CallEffect img c k k := by
  have h : CallEffect img c k (k.setFds k.pcb.fdArr) := of_fds (.same c)
  rwa [setFds_self] at h

/-- Drawing after a call. -/
lemma draw {d : Display} (h : CallEffect img c k k') (hd : k'.toDisplay.Drawn d) :
    CallEffect img c k { k' with toDisplay := d } :=
  ⟨h.fds, h.pid, h.currentPid, h.thisPcb, h.esp0, h.ctl,
    hd.scheduledTerm.trans h.scheduledTerm, hd.visibleTerm.trans h.visibleTerm,
    fun t => (hd.pid t).trans (h.termPid t), hd.paging ▸ h.paging⟩

/-- The RTC after a call. -/
lemma setRtc {r : Rtc} (h : CallEffect img c k k') : CallEffect img c k { k' with rtc := r } :=
  ⟨h.fds, h.pid, h.currentPid, h.thisPcb, h.esp0, h.ctl, h.scheduledTerm, h.visibleTerm,
    h.termPid, h.paging⟩

/-- The array after a call. -/
lemma fdArr (h : CallEffect img c k k') : FdsChange img k.pcb.fdArr c k'.pcb.fdArr := by
  obtain ⟨fds, hfds, hpcbs⟩ := h.fds
  have heq : k'.pcb.fdArr = (k.setFds fds).pcb.fdArr := by
    rw [Kernel.pcb, Kernel.pcb, hpcbs, h.thisPcb, Kernel.setFds_thisPcb]
  rw [heq, Kernel.setFds_fdArr]
  exact hfds

end CallEffect

/-- However a call ends, the state it leaves, `st a` when it returns `a`, satisfies `P`. -/
def Outcome.Leads {α : Type} (st : α → Kernel) (P : Kernel → Prop) : Outcome α → Prop
  | done a => P (st a)
  | waits => True
  | fault k => P k

section Effects

variable (img : Image) (k : Kernel)

/-! ### Reading -/

/-- `file_read` changes the position of its own entry, or nothing. -/
lemma fileRead_fds (fds : FdArr) (fd : Int32) (buf : Buf) (nbytes : Int32) :
    ∃ pos, (fileRead img fds fd buf nbytes).fds
      = Function.update fds (fdIndex fd) { fds (fdIndex fd) with filePos := pos } := by
  rw [fileRead]
  by_cases hfd : fd < 2 ∨ fd ≥ 8
  · rw [if_pos hfd]
    exact ⟨(fds (fdIndex fd)).filePos, (Function.update_eq_self _ _).symm⟩
  · rw [if_neg hfd]
    dsimp only
    split
    · exact ⟨_, rfl⟩
    · exact ⟨_, rfl⟩

/-- `dir_read` changes the position of its own entry, or nothing. -/
lemma dirRead_fds (fds : FdArr) (fd : Int32) (buf : Buf) (nbytes : Int32) :
    ∃ pos, (dirRead img fds fd buf nbytes).fds
      = Function.update fds (fdIndex fd) { fds (fdIndex fd) with filePos := pos } := by
  have hsame : ∃ pos, fds
      = Function.update fds (fdIndex fd) { fds (fdIndex fd) with filePos := pos } :=
    ⟨(fds (fdIndex fd)).filePos, (Function.update_eq_self _ _).symm⟩
  rw [dirRead]
  by_cases hfd : fd < 0 ∨ fd ≥ 8 ∨ nbytes < 0
  · rw [if_pos hfd]
    exact hsame
  · rw [if_neg hfd]
    dsimp only
    split
    · exact hsame
    · split
      · exact hsame
      · exact ⟨_, rfl⟩

/-- The driver's `read`, on an entry in use. -/
lemma driverRead_effect (fd : Int32) (buf : Buf) (nbytes : Int32) (h8 : fdIndex fd < 8)
    (hflags : (k.pcb.fdArr (fdIndex fd)).flags ≠ 0) :
    (driverRead img k fd buf nbytes).Leads (fun x => x.2.2)
      (CallEffect img (.read fd (some buf) nbytes) k) := by
  rw [driverRead]
  split
  · exact CallEffect.refl img _ k
  · dsimp only
    split
    · refine ⟨(CallEffect.refl img _ k).fds, rfl, rfl, rfl, rfl, rfl, rfl, rfl, fun t => ?_,
        Or.inl rfl⟩
      by_cases ht : t = k.scheduledTerm
      · subst ht
        simp only [Kernel.setInput, Function.update_self]
      · simp only [Kernel.setInput, Function.update_of_ne ht]
    · trivial
  · exact CallEffect.refl img _ k
  · rename_i hops
    obtain ⟨pos, hpos⟩ := dirRead_fds img k.pcb.fdArr fd buf nbytes
    dsimp only [Outcome.Leads]
    rw [hpos]
    exact CallEffect.of_fds (.moved h8 hflags (Or.inr hops) pos)
  · rename_i hops
    obtain ⟨pos, hpos⟩ := fileRead_fds img k.pcb.fdArr fd buf nbytes
    dsimp only [Outcome.Leads]
    rw [hpos]
    exact CallEffect.of_fds (.moved h8 hflags (Or.inl hops) pos)
  · split
    · exact CallEffect.refl img _ k
    · exact (CallEffect.refl img _ k).setRtc

lemma syscallRead_effect (fd : Int32) (buf : Option Buf) (nbytes : Int32) :
    (syscallRead img k fd buf nbytes).Leads (fun x => x.2.2)
      (CallEffect img (.read fd buf nbytes) k) := by
  cases buf with
  | none => exact CallEffect.refl img _ k
  | some buf =>
    rw [syscallRead.eq_def]
    dsimp only
    split
    · exact CallEffect.refl img _ k
    · rename_i hok
      push Not at hok
      have h8 : fd.toInt < 8 := Int32.lt_iff_toInt_lt.1 (Int32.not_le.1 hok.2.1)
      have heff := driverRead_effect img k fd buf nbytes (by rw [fdIndex]; omega) hok.2.2.2
      cases hdr : driverRead img k fd buf nbytes with
      | done x =>
        rw [hdr] at heff
        exact heff
      | waits => trivial
      | fault k₁ =>
        rw [hdr] at heff
        exact heff

/-! ### Writing -/

/-- Drawing on the patched display. -/
lemma CallEffect.of_patch {c : Call} {d : Display} (hd : k.toDisplay.writePatch.Drawn d) :
    CallEffect img c k { k with toDisplay := d } := by
  refine ⟨(CallEffect.refl img _ k).fds, rfl, rfl, rfl, rfl, rfl,
    hd.scheduledTerm.trans (Display.writePatch_scheduledTerm _),
    hd.visibleTerm.trans (Display.writePatch_visibleTerm _), fun t => ?_, Or.inr hd.paging⟩
  rw [hd.pid t, Display.writePatch_terms]

lemma driverWrite_effect (c : Call) (fd : Int32) (buf : Buf) (nbytes : Int32) :
    (driverWrite k fd buf nbytes).Leads (fun x => x.2) (CallEffect img c k) := by
  rw [driverWrite]
  split
  · exact CallEffect.refl img _ k
  · exact CallEffect.refl img _ k
  · split
    · rename_i d hd
      exact CallEffect.of_patch img k ((Display.terminalWrite_drawn _ _ _ _).1 d hd)
    · rename_i r d hd
      exact CallEffect.of_patch img k ((Display.terminalWrite_drawn _ _ _ _).2 r d hd)
  · exact CallEffect.refl img _ k
  · exact CallEffect.refl img _ k
  · exact (CallEffect.refl img _ k).setRtc

lemma syscallWrite_effect (fd : Int32) (buf : Option Buf) (nbytes : Int32) :
    (syscallWrite k fd buf nbytes).Leads (fun x => x.2)
      (CallEffect img (.write fd buf nbytes) k) := by
  cases buf with
  | none => exact CallEffect.refl img _ k
  | some buf =>
    rw [syscallWrite.eq_def]
    dsimp only
    split
    · exact CallEffect.refl img _ k
    · exact driverWrite_effect img k _ fd buf nbytes

/-! ### Opening and closing -/

/-- A fallible step of a call, and the state it ends or faults in. -/
def Ends (P : Kernel → Prop) : Except Kernel Kernel → Prop
  | .ok k => P k
  | .error k => P k

lemma complain_effect {c : Call} {k' : Kernel} (fileType : UInt32) (h : CallEffect img c k k') :
    Ends (CallEffect img c k) (k'.complain fileType) := by
  have hd := (Display.clear_drawn k'.toDisplay).draws
    (Display.puts_draws (strangeText fileType) k'.toDisplay.clear)
  rw [Kernel.complain]
  split
  · rename_i d hp
    rw [hp] at hd
    exact h.draw hd
  · rename_i d hp
    rw [hp] at hd
    exact h.draw hd

lemma driverOpen_effect {c : Call} {k' : Kernel} (driver : Option Driver)
    (h : CallEffect img c k k') : Ends (CallEffect img c k) (driverOpen k' driver) := by
  rw [driverOpen.eq_def]
  split
  · exact h
  · exact h.setRtc
  · exact h

/-- The end of `syscall_open` stores the new entry, whether its driver call faults or not. -/
lemma openAt_effect {filename : Str} {m : ℕ} {d : DirEntry}
    (hm : vacantFrom k.pcb.fdArr 7 0 = some m) (hd : readDentryByName img filename = some d) :
    Ends (CallEffect img (.openFile filename) k) (openAt k m d) := by
  have hnew : CallEffect img (.openFile filename) k _ := CallEffect.of_fds (.opened hm hd)
  rw [openAt]
  dsimp only
  split
  · have hc := complain_effect img k d.fileType hnew
    cases hk : Kernel.complain _ d.fileType with
    | error k₁ =>
      rw [hk] at hc
      exact hc
    | ok k₁ =>
      rw [hk] at hc
      exact driverOpen_effect img k _ hc
  · exact driverOpen_effect img k _ hnew

lemma syscallOpen_effect (filename : Str) :
    (syscallOpen img k filename).Leads (fun x => x.2)
      (CallEffect img (.openFile filename) k) := by
  rw [syscallOpen]
  split
  · exact CallEffect.refl img _ k
  · rename_i d hname
    split
    · exact CallEffect.refl img _ k
    · rename_i m hm
      have heff := openAt_effect img k hm hname
      split
      · rename_i k₁ hk₁
        rw [hk₁] at heff
        exact heff
      · rename_i k₁ hk₁
        rw [hk₁] at heff
        exact heff

lemma syscallClose_effect (fd : Int32) :
    (syscallClose k fd).Leads (fun x => x.2) (CallEffect img (.close fd) k) := by
  rw [syscallClose]
  split
  · exact CallEffect.refl img _ k
  · rename_i hok
    push Not at hok
    have h2 : fd < 2 ↔ fd.toInt < 2 := Int32.lt_iff_toInt_lt
    have h8 : fd ≥ 8 ↔ 8 ≤ fd.toInt := Int32.le_iff_toInt_le
    rw [h2, h8] at hok
    have hlo : 2 ≤ fdIndex fd := by
      rw [fdIndex]
      omega
    have hhi : fdIndex fd < 8 := by
      rw [fdIndex]
      omega
    have heff : CallEffect img (.close fd) k _ := CallEffect.of_fds (.closed hlo hhi)
    dsimp only
    split
    · exact heff
    · exact heff

/-- **What a call can do to the kernel**, whether it returns or faults. -/
theorem call_effect (c : Call) :
    (k.call img c).Leads (fun x => x.2) (CallEffect img c k) := by
  cases c with
  | openFile filename => exact syscallOpen_effect img k filename
  | close fd => exact syscallClose_effect img k fd
  | read fd buf nbytes =>
    have h := syscallRead_effect img k fd buf nbytes
    rw [Kernel.call]
    cases hr : syscallRead img k fd buf nbytes with
    | done x =>
      rw [hr] at h
      exact h
    | waits => trivial
    | fault k₁ =>
      rw [hr] at h
      exact h
  | write fd buf nbytes => exact syscallWrite_effect img k fd buf nbytes

end Effects

end WnajOS
