import WnajOS.Scheduler

/-!
# The memory of a process

In an orderly run the processor is set up for the process of the scheduled terminal whenever a
program runs: `this_pcb`, the frame of the program page and the kernel stack are its own.  The
page tables differ from those of `init_paging` in three addresses only, so a program reaches
the frame of its process, the video page of its terminal and nothing else.
-/

namespace WnajOS

/-! ### The processor is set up for the program that runs -/

/-- While a program runs, everything that a system call acts on is that of its process. -/
structure ContextOk (k : Kernel) : Prop where
  onProcessor : k.ctl.point ≠ .lost
  program : ∀ p, k.ctl.point = .user p → k.cur = p ∧ 0 ≤ p ∧ p < 6
  thisPcb : ∀ p, k.ctl.point = .user p → k.thisPcb = pcbAddr p ∧ k.pcb.processId = p
  page : ∀ p, k.ctl.point = .user p → (k.paging.pageDirectory userPageIndex).addr = userFrame p
  esp0 : ∀ p, k.ctl.point = .user p → k.esp0 = stackBase p ∧ k.kstack = p

lemma Inv.contextOk {k : Kernel} {live : Ledger} (h : Inv k live) : ContextOk k := by
  have hproc : ∀ p, k.ctl.point = .user p → ∃ l, live k.scheduledTerm = p :: l ∧ k.cur = p :=
    fun p hp => h.proc (by rw [hp]; rfl)
  have hcpu : ∀ p, k.ctl.point = .user p → CpuFor k p := fun p hp => h.cpu p (by rw [hp]; rfl)
  refine ⟨h.not_lost, fun p hp => ?_, fun p hp => ?_, fun p hp => (hcpu p hp).page, fun p hp => ?_⟩
  · obtain ⟨l, hlive, hcur⟩ := hproc p hp
    exact ⟨hcur, h.range _ p (hlive ▸ List.mem_cons_self ..)⟩
  · obtain ⟨l, hlive, -⟩ := hproc p hp
    have hthis := (hcpu p hp).thisPcb
    refine ⟨hthis, ?_⟩
    rw [Kernel.pcb, hthis]
    exact (h.stacked k.scheduledTerm).processId (hlive ▸ List.mem_cons_self ..)
  · have hesp := (hcpu p hp).esp0
    refine ⟨hesp, ?_⟩
    rw [Kernel.kstack, hp, hesp, stackBase]
    dsimp only
    omega

/-- **A system call acts on the process that made it.**  In every orderly run from boot, with
programs of any length, the state agrees with the program that runs. -/
theorem context_consistent (img : Image) (l : Layout) (pg : Paging) (vram : ℕ → ℕ → UInt8)
    (mem : ℤ → Pcb) (m : Machine)
    (h : Runs.Reach (Machine.step img) (fun e m => Orderly img e m.kernel)
      (bootMachine l pg vram mem) m) : ContextOk m.kernel :=
  (inv_of_reach (fun _ _ ho => ho) (inv_boot l pg vram mem) h).contextOk

/-- The last shell halts, is executed anew and enters its program. -/
theorem context_consistent_restart :
    ∃ m, Runs.run (Machine.step sampleImage) (bootShells ++ [.halt, .restartExec noBuf, .enter])
      sampleMachine = some m ∧ m.kernel.cur = 2 ∧ ContextOk m.kernel := by
  let es := bootShells ++ [Event.halt, .restartExec noBuf, .enter]
  have hrun : (Runs.run (Runs.guarded (Machine.step sampleImage)
      fun e m => Orderly sampleImage e m.kernel) es sampleMachine).any
      (fun m => m.kernel.cur = 2) = true := by decide +kernel
  obtain ⟨m, hm, hcur⟩ := (Option.any_eq_true _ _).1 hrun
  exact ⟨m, Runs.run_of_guarded hm, of_decide_eq_true hcur, context_consistent sampleImage
    sampleLayout samplePaging _ _ m (Runs.reach_of_guarded hm)⟩

/-- The shell with the pid 3 halts; while its slot is free, the next shell executes a program in
it.  The program is preempted once and halts.  When the first of the two terminals comes, its
process control block is that of the dead program, whose pid is -1.  The saved pointers are
those of the program's preemption, at the base of its kernel stack: what lies there are the
registers with which it called `halt`, and it goes on if it has put the return address of
`pit_handler` in `ecx` and its flags in `edx`. -/
theorem context_of_dead_program :
    ∃ m, Runs.Reach (Machine.step sampleImage) (fun _ _ => True) sampleMachine m ∧
      m.kernel.ctl.point = .user 3 ∧ m.kernel.cur = 3 ∧ m.kernel.pcb.processId = -1 ∧
      ¬ContextOk m.kernel := by
  let es := bootLate ++ [Event.tick, .tick, .halt, .tick, .execute shellName noBuf, .enter, .tick,
    .tick, .tick, .halt, .tick, .tick]
  have hrun : (Runs.run (Machine.step sampleImage) es sampleMachine).any (fun m =>
      m.kernel.ctl.point.user? = some 3 ∧ m.kernel.cur = 3 ∧ m.kernel.pcb.processId = -1)
      = true := by decide +kernel
  obtain ⟨m, hm, hstate⟩ := (Option.any_eq_true _ _).1 hrun
  obtain ⟨huser, hcur, hid⟩ := of_decide_eq_true hstate
  have hpt := Point.eq_user huser
  refine ⟨m, Runs.reach_of_run (fun _ _ => trivial) hm, hpt, hcur, hid, fun hok => ?_⟩
  have hid3 := (hok.thisPcb 3 hpt).2
  rw [hid] at hid3
  exact absurd hid3 (by decide)

/-! ### The page tables -/

/-- The paging structures of a running system: those of `init_paging`, with the frame of the
process `p` and the pages `a` and `b` of video memory. -/
def patchedPaging (l : Layout) (pg : Paging) (p : ℤ) (a b : ℕ) : Paging where
  pageDirectory := setPdeAddr userPageIndex (userFrame p)
    (initDirectory l.pt0 l.vidmap pg.pageDirectory)
  pageTable0 := setPteAddr videoMemAddr a (initPageTable0 pg.pageTable0)
  userVidmapTable := setPteAddr videoMemAddr b (initVidmapTable pg.userVidmapTable)

/-- The tables of `init_paging` are of this form. -/
lemma initPaging_patched (l : Layout) (pg : Paging) :
    initPaging l.pt0 l.vidmap pg = patchedPaging l pg 0 0xB8 0xB8 := by
  have hdir : ∀ d : ℕ → Pde, ∀ n, (d 32).addr = n → setPdeAddr userPageIndex n d = d := by
    rintro d n rfl
    exact Function.update_eq_self _ _
  have htab : ∀ t : ℕ → Pte, ∀ n, (t 0xB8).addr = n → setPteAddr videoMemAddr n t = t := by
    rintro t n rfl
    exact Function.update_eq_self _ _
  rw [initPaging, patchedPaging, hdir _ _ (by rw [initDirectory_apply _ _ _ (by decide)]; rfl),
    htab _ _ (by rw [initPageTable0_apply _ (by decide)]; rfl),
    htab _ _ (by rw [initVidmapTable_apply _ (by decide)]; rfl)]

section Walks

variable (l : Layout) (pg : Paging) (a b : ℕ)

/-- The directory entry of the program page. -/
lemma patched_user {p : ℤ} : (patchedPaging l pg p a b).pageDirectory 32
    = { newPde true true true true 0x800 with addr := userFrame p } := by
  have h32 := initDirectory_apply l.pt0 l.vidmap pg.pageDirectory (i := 32) (by decide)
  rw [if_neg (by decide), if_pos rfl] at h32
  rw [← h32]
  exact setPdeAddr_self userPageIndex _ _

lemma patched_directory {p : ℤ} {i : ℕ} (h : i ≠ 32) :
    (patchedPaging l pg p a b).pageDirectory i
      = initDirectory l.pt0 l.vidmap pg.pageDirectory i :=
  Function.update_of_ne h ..

lemma patched_pageTable0 {p : ℤ} {i : ℕ} (hi : i < 1024) :
    (patchedPaging l pg p a b).pageTable0 i =
      if i = 0xB8 then { newPte true true false 0xB8 with addr := a }
      else if i = 0xB7 then { newPte true true false 0xB7 with addr := 0xB8 }
      else if 0xB8 ≤ i ∧ i ≤ 0xBB then newPte true true false i
      else newPte false true false i := by
  by_cases h : i = 0xB8
  · subst h
    have hb8 := initPageTable0_apply pg.pageTable0 (i := 0xB8) (by decide)
    rw [if_neg (by decide), if_pos (by decide)] at hb8
    rw [if_pos rfl, ← hb8]
    exact setPteAddr_self videoMemAddr _ _
  · rw [if_neg h, ← initPageTable0_apply pg.pageTable0 hi]
    exact Function.update_of_ne h ..

lemma patched_userVidmapTable {p : ℤ} {i : ℕ} (hi : i < 1024) :
    (patchedPaging l pg p a b).userVidmapTable i =
      if i = 0xB8 then { newPte true true true 0xB8 with addr := b }
      else newPte false true true i := by
  by_cases h : i = 0xB8
  · subst h
    have hb8 := initVidmapTable_apply pg.userVidmapTable (i := 0xB8) (by decide)
    rw [if_pos rfl]
    have htrue : newPte true true true 0xB8 = initVidmapTable pg.userVidmapTable 0xB8 := by
      rw [hb8]
      rfl
    rw [htrue]
    exact setPteAddr_self videoMemAddr _ _
  · have hother := initVidmapTable_apply pg.userVidmapTable hi
    rw [if_neg h]
    refine (Function.update_of_ne h ..).trans (hother.trans ?_)
    simp [h]

/-- The walk through the program page. -/
lemma walk_program {p : ℤ} (h0 : 0 ≤ p) (h6 : p < 6) (user : Bool) {va : UInt32}
    (hva : va.toNat / 0x400000 = 32) : walk l (patchedPaging l pg p a b) user va
      = some (0x800000 + 0x400000 * p.toNat + (va.toNat - 0x8000000)) := by
  rw [walk, hva, patched_user]
  simp only [newPde, Bool.not_true, Bool.and_false, Bool.or_false, Bool.false_eq_true, if_false,
    if_true, userFrame_eq h0 h6, Option.some.injEq]
  omega

/-- The walk through `user_vidmap_table`. -/
lemma walk_vidmap {p : ℤ} (user : Bool) {va : UInt32} (hva : va.toNat / 0x400000 = 33) :
    walk l (patchedPaging l pg p a b) user va
      = if va.toNat / 4096 = 0x84B8 then some (b * 4096 + va.toNat % 4096) else none := by
  have hdir : (patchedPaging l pg p a b).pageDirectory 33 =
      newPde true true true false l.vidmap := by
    rw [patched_directory l pg a b (by decide), initDirectory_apply _ _ _ (by decide), if_pos rfl]
  have htable : l.table (patchedPaging l pg p a b) (l.vidmap % 2 ^ 20)
      = (patchedPaging l pg p a b).userVidmapTable := by
    rw [Nat.mod_eq_of_lt l.vidmap_lt, Layout.table, if_neg (Ne.symm l.ne), if_pos rfl]
  rw [walk, hva, hdir]
  simp only [newPde, htable, Bool.not_true, Bool.and_false, Bool.or_false, Bool.false_eq_true,
    if_false]
  have hpte := patched_userVidmapTable l pg a b (p := p)
    (Nat.mod_lt (va.toNat / 4096) (by decide : 0 < 1024))
  by_cases hpage : va.toNat / 4096 % 1024 = 0xB8
  · rw [if_pos hpage] at hpte
    rw [hpte, if_pos (by omega : va.toNat / 4096 = 0x84B8)]
    simp [newPte]
  · rw [if_neg hpage] at hpte
    rw [hpte, if_neg (by omega : ¬va.toNat / 4096 = 0x84B8)]
    rfl

/-- The directory entries above 1 that `init_paging` leaves out are not present. -/
lemma walk_absent {p : ℤ} (user : Bool) {va : UInt32} (h2 : 2 ≤ va.toNat / 0x400000)
    (h32 : va.toNat / 0x400000 ≠ 32) (h33 : va.toNat / 0x400000 ≠ 33) :
    walk l (patchedPaging l pg p a b) user va = none := by
  have hlt : va.toNat < 4294967296 := va.toNat_lt
  rw [walk, patched_directory l pg a b h32, initDirectory_apply _ _ _ (by omega), if_neg h33,
    if_neg h32, if_pos h2]
  rfl

/-- The page of the kernel. -/
lemma walk_kernel {p : ℤ} (user : Bool) {va : UInt32} (h1 : va.toNat / 0x400000 = 1) :
    walk l (patchedPaging l pg p a b) user va = if user then none else some va.toNat := by
  rw [walk, h1, patched_directory l pg a b (by decide), initDirectory_apply _ _ _ (by decide)]
  cases user with
  | false =>
    have hmod : 0x400000 + va.toNat % 0x400000 = va.toNat := by omega
    simpa [newPde] using hmod
  | true => rfl

/-- The walk through `page_table_0`. -/
lemma walk_table0 {p : ℤ} (user : Bool) {va : UInt32} (h0 : va.toNat / 0x400000 = 0) :
    walk l (patchedPaging l pg p a b) user va =
      if user then none
      else if va.toNat / 4096 = 0xB8 then some (a * 4096 + va.toNat % 4096)
      else if va.toNat / 4096 = 0xB7 then some (0xB8000 + va.toNat % 4096)
      else if 0xB8 ≤ va.toNat / 4096 ∧ va.toNat / 4096 ≤ 0xBB then some va.toNat
      else none := by
  have hdir : (patchedPaging l pg p a b).pageDirectory 0
      = { newPde true true false false 0 with addr := l.pt0 } := by
    rw [patched_directory l pg a b (by decide), initDirectory_apply _ _ _ (by decide)]
    rfl
  have htable : l.table (patchedPaging l pg p a b) l.pt0
      = (patchedPaging l pg p a b).pageTable0 := by
    rw [Layout.table, if_pos rfl]
  have hpage : va.toNat / 4096 % 1024 = va.toNat / 4096 := by omega
  rw [walk, h0, hdir]
  cases user with
  | true => rfl
  | false =>
    simp only [newPde, htable, hpage, Bool.not_true, Bool.false_and, Bool.or_false,
      Bool.false_eq_true, if_false]
    have hpte := patched_pageTable0 l pg a b (p := p) (i := va.toNat / 4096) (by omega)
    by_cases hb8 : va.toNat / 4096 = 0xB8
    · rw [if_pos hb8] at hpte ⊢
      rw [hpte]
      rfl
    rw [if_neg hb8] at hpte ⊢
    by_cases hb7 : va.toNat / 4096 = 0xB7
    · rw [if_pos hb7] at hpte ⊢
      rw [hpte]
      rfl
    rw [if_neg hb7] at hpte ⊢
    by_cases hvid : 0xB8 ≤ va.toNat / 4096 ∧ va.toNat / 4096 ≤ 0xBB
    · have hmod : va.toNat / 4096 * 4096 + va.toNat % 4096 = va.toNat := by omega
      rw [if_pos hvid] at hpte ⊢
      rw [hpte]
      simpa [newPte] using hmod
    · rw [if_neg hvid] at hpte ⊢
      rw [hpte]
      rfl

/-- What a program reaches: the frame of `p` at 128 MB and one video page. -/
lemma walk_user {p : ℤ} (h0 : 0 ≤ p) (h6 : p < 6) (va : UInt32) :
    walk l (patchedPaging l pg p a b) true va =
      if 0x8000000 ≤ va.toNat ∧ va.toNat < 0x8400000 then
        some (0x800000 + 0x400000 * p.toNat + (va.toNat - 0x8000000))
      else if va.toNat / 4096 = 0x84B8 then some (b * 4096 + va.toNat % 4096)
      else none := by
  by_cases h32 : va.toNat / 0x400000 = 32
  · rw [walk_program l pg a b h0 h6 true h32, if_pos (by omega)]
  rw [if_neg (by omega)]
  by_cases h33 : va.toNat / 0x400000 = 33
  · exact walk_vidmap l pg a b true h33
  rw [if_neg (by omega)]
  by_cases h2 : 2 ≤ va.toNat / 0x400000
  · exact walk_absent l pg a b true h2 h32 h33
  by_cases h1 : va.toNat / 0x400000 = 1
  · rw [walk_kernel l pg a b true h1]
    rfl
  · rw [walk_table0 l pg a b true (by omega)]
    rfl

/-- What the kernel reaches. -/
lemma walk_supervisor {p : ℤ} (h0 : 0 ≤ p) (h6 : p < 6) (va : UInt32) :
    walk l (patchedPaging l pg p a b) false va =
      if va.toNat / 4096 = 0xB8 then some (a * 4096 + va.toNat % 4096)
      else if va.toNat / 4096 = 0xB7 then some (0xB8000 + va.toNat % 4096)
      else if 0xB8 ≤ va.toNat / 4096 ∧ va.toNat / 4096 ≤ 0xBB then some va.toNat
      else if 0x400000 ≤ va.toNat ∧ va.toNat < 0x800000 then some va.toNat
      else walk l (patchedPaging l pg p a b) true va := by
  rw [walk_user l pg a b h0 h6 va]
  by_cases h00 : va.toNat / 0x400000 = 0
  · rw [walk_table0 l pg a b false h00, if_neg (by decide),
      if_neg (by omega : ¬(0x400000 ≤ va.toNat ∧ va.toNat < 0x800000)),
      if_neg (by omega : ¬(0x8000000 ≤ va.toNat ∧ va.toNat < 0x8400000)),
      if_neg (by omega : ¬va.toNat / 4096 = 0x84B8)]
  rw [if_neg (by omega : ¬va.toNat / 4096 = 0xB8), if_neg (by omega : ¬va.toNat / 4096 = 0xB7),
    if_neg (by omega : ¬(0xB8 ≤ va.toNat / 4096 ∧ va.toNat / 4096 ≤ 0xBB))]
  by_cases h1 : va.toNat / 0x400000 = 1
  · rw [walk_kernel l pg a b false h1, if_neg (by decide),
      if_pos (by omega : 0x400000 ≤ va.toNat ∧ va.toNat < 0x800000)]
  rw [if_neg (by omega : ¬(0x400000 ≤ va.toNat ∧ va.toNat < 0x800000))]
  by_cases h32 : va.toNat / 0x400000 = 32
  · rw [walk_program l pg a b h0 h6 false h32, if_pos (by omega)]
  rw [if_neg (by omega)]
  by_cases h33 : va.toNat / 0x400000 = 33
  · exact walk_vidmap l pg a b false h33
  · rw [if_neg (by omega)]
    exact walk_absent l pg a b false (by omega) h32 h33

end Walks

/-! ### The page tables of a running system -/

lemma setPdeAddr_setPdeAddr (i m n : ℕ) (d : ℕ → Pde) :
    setPdeAddr i n (setPdeAddr i m d) = setPdeAddr i n d := by
  simp only [setPdeAddr, Function.update_self, Function.update_idem]

lemma setPteAddr_setPteAddr (i m n : ℕ) (t : ℕ → Pte) :
    setPteAddr i n (setPteAddr i m t) = setPteAddr i n t := by
  simp only [setPteAddr, Function.update_self, Function.update_idem]

/-- The page tables are those of `init_paging`, with the frame of the process `p`, which is the
scheduled one if there is one, and with pages of video memory. -/
def Mapped (l : Layout) (pg : Paging) (k : Kernel) : Prop :=
  ∃ p a b, (0 ≤ p ∧ p < 6) ∧ (k.cur ≠ -1 → p = k.cur) ∧ (0xB8 ≤ a ∧ a ≤ 0xBB) ∧
    (0xB8 ≤ b ∧ b ≤ 0xBB) ∧ k.paging = patchedPaging l pg p a b

section Mapped

variable {l : Layout} {pg : Paging}

lemma patchedPaging_of {p : ℤ} {a b : ℕ} {pg' : Paging}
    (hdir : pg'.pageDirectory = (patchedPaging l pg p a b).pageDirectory)
    (htable : pg'.pageTable0 = (patchedPaging l pg p a b).pageTable0)
    (hvidmap : pg'.userVidmapTable = (patchedPaging l pg p a b).userVidmapTable) :
    pg' = patchedPaging l pg p a b := by
  obtain ⟨d, t, v⟩ := pg'
  dsimp only at hdir htable hvidmap
  rw [hdir, htable, hvidmap]

/-- Mapping another frame. -/
lemma patchedPaging_user {p q : ℤ} {a b : ℕ} :
    setPdeAddr userPageIndex (userFrame q) (patchedPaging l pg p a b).pageDirectory
      = (patchedPaging l pg q a b).pageDirectory := setPdeAddr_setPdeAddr ..

/-- Mapping another page of video memory. -/
lemma patchedPaging_video {p : ℤ} {a b n : ℕ} :
    setPteAddr videoMemAddr n (patchedPaging l pg p a b).pageTable0
      = (patchedPaging l pg p n b).pageTable0 := setPteAddr_setPteAddr ..

lemma patchedPaging_vidmap {p : ℤ} {a b n : ℕ} :
    setPteAddr videoMemAddr n (patchedPaging l pg p a b).userVidmapTable
      = (patchedPaging l pg p a n).userVidmapTable := setPteAddr_setPteAddr ..

/-- The scheduled process, if there is one, has a slot and is named by its process control
block. -/
lemma Inv.cur_ok {k : Kernel} {live : Ledger} (h : Inv k live) (hcur : k.cur ≠ -1) :
    (0 ≤ k.cur ∧ k.cur < 6) ∧ (k.pcbOf k.cur).processId = k.cur := by
  cases h.term k.scheduledTerm with
  | @live c rest hlive hpid hctx =>
    have hmem : c ∈ live k.scheduledTerm := hlive ▸ List.mem_cons_self ..
    rw [Kernel.cur, hpid]
    exact ⟨h.range _ c hmem, (h.stacked _).processId hmem⟩
  | @restart q hpid hrange hfree hid hbase hctx =>
    rw [Kernel.cur, hpid]
    exact ⟨hrange, hid⟩
  | unused hpid hlive hctx => exact absurd hpid hcur

/-- A patch of the entry of video memory keeps the form of the tables. -/
lemma Mapped.same {k k' : Kernel} {live : Ledger} (h : Mapped l pg k) (hinv : Inv k live)
    (hsame : SameProcs k k') : Mapped l pg k' := by
  obtain ⟨p, a, b, hp, hcur, ha, hb, hpg⟩ := h
  have hdir := hsame.pageDirectory
  have hvidmap := hsame.userVidmapTable
  rw [hpg] at hdir hvidmap
  have hsched := hinv.sched
  rw [numTtys] at hsched
  rcases hsame.pageTable0 with htable | htable
  · rw [hpg] at htable
    exact ⟨p, a, b, hp, hsame.cur ▸ hcur, ha, hb, patchedPaging_of hdir htable hvidmap⟩
  · rw [hpg, patchedPaging_video] at htable
    exact ⟨p, 0xB9 + k.scheduledTerm, b, hp, hsame.cur ▸ hcur, by omega, hb,
      patchedPaging_of (a := 0xB9 + k.scheduledTerm) hdir htable hvidmap⟩

/-- An orderly step that loads no program beyond its page keeps the form of the tables. -/
lemma Mapped.step {img : Image} {e : Event} {m m' : Machine} (h : Mapped l pg m.kernel)
    (hinv : Inv m.kernel m.live) (hinv' : Inv m'.kernel m'.live) (hfits : Fits img e)
    (ho : Orderly img e m.kernel) (hs : m.step img e = some m') : Mapped l pg m'.kernel := by
  have heff := step_effect hs
  obtain ⟨k, live⟩ := m
  obtain ⟨k', live'⟩ := m'
  obtain ⟨p, a, b, hp, hcur, ha, hb, hpg⟩ := h
  dsimp only at hinv hinv' ho heff hcur hpg ⊢
  cases heff with
  | same hsame _ _ => exact Mapped.same ⟨p, a, b, hp, hcur, ha, hb, hpg⟩ hinv hsame
  | called _ _ hsame _ _ _ => exact Mapped.same ⟨p, a, b, hp, hcur, ha, hb, hpg⟩ hinv hsame
  | tick he ht =>
    obtain ⟨page, hlo, hhi, htable, hvidmap⟩ := ht.video
    rw [hpg, patchedPaging_video] at htable
    rw [hpg, patchedPaging_vidmap] at hvidmap
    rcases ht.next with ⟨hnone, -, hdir⟩ | ⟨hsome, -, -, -, hdir⟩
    · rw [hpg] at hdir
      exact ⟨p, page, page, hp, fun hne => absurd hnone hne, ⟨hlo, hhi⟩, ⟨hlo, hhi⟩,
        patchedPaging_of hdir htable hvidmap⟩
    · obtain ⟨hrange, hid⟩ := hinv'.cur_ok hsome
      rw [hpg, hid, patchedPaging_user] at hdir
      exact ⟨k'.cur, page, page, hrange, fun _ => rfl, ⟨hlo, hhi⟩, ⟨hlo, hhi⟩,
        patchedPaging_of hdir htable hvidmap⟩
  | @created caller command buf d i he hd hi _ hc =>
    have hi6 := (freeSlot_spec hi).1
    have hpids : k'.cur = i := by
      rw [Kernel.cur, hc.termPid, if_pos hc.scheduledTerm]
    refine ⟨i, a, b, by omega, fun _ => hpids.symm, ha, hb, ?_⟩
    rw [hc.paging, Kernel.setUserPage, hpg]
    exact patchedPaging_of patchedPaging_user rfl rfl
  | faulted he hd hi hnot hk' => exact absurd (hfits _ (he.program.trans hd)) hnot
  | failed he hc hd =>
    obtain ⟨⟨d', hd', -⟩, hslot⟩ := ho.shellStarts (he.isOwn hc)
    rcases hd with hnone | hnone
    · rw [he.program, hnone] at hd'
      exact absurd hd' (by simp)
    · rw [hnone] at hslot
      exact absurd hslot (by simp)
  | halted he hproc hk' =>
    rcases syscallHalt_cases k with ⟨-, heq⟩ | ⟨hparent, hfin⟩
    · rw [hk', heq]
      exact ⟨p, a, b, hp, hcur, ha, hb, hpg⟩
    · have hends : e.ends = true := by rcases he with rfl | rfl <;> rfl
      obtain ⟨rest, hlive, -⟩ := hinv.finish hproc hparent (ho.returns hends hparent) hfin
      have hmem : (k.pcbOf k.cur).parentId ∈ live k.scheduledTerm := by
        rw [hlive]
        exact List.mem_cons_of_mem _ (List.mem_cons_self ..)
      rw [hk']
      have hback : k.syscallHalt.cur = (k.pcbOf k.cur).parentId := by
        rw [Kernel.cur, hfin.termPid, if_pos hfin.scheduledTerm]
      refine ⟨_, a, b, hinv.range _ _ hmem, fun _ => hback.symm, ha, hb, ?_⟩
      rw [hfin.paging, Kernel.setUserPage, hpg]
      exact patchedPaging_of patchedPaging_user rfl rfl

end Mapped

/-! ### Isolation -/

/-- What a program reaches in the state `k`: the frame of the scheduled process at 128 MB, one
page of video memory, and nothing else.  While no process is scheduled, the frame is that of
one of the six slots. -/
structure Isolated (l : Layout) (k : Kernel) : Prop where
  onProcessor : k.ctl.point ≠ .lost
  user : ∃ p b, (0 ≤ p ∧ p < 6) ∧ (k.cur ≠ -1 → p = k.cur) ∧ (0xB8 ≤ b ∧ b ≤ 0xBB) ∧
    ∀ va : UInt32, walk l k.paging true va =
      if 0x8000000 ≤ va.toNat ∧ va.toNat < 0x8400000 then
        some (0x800000 + 0x400000 * p.toNat + (va.toNat - 0x8000000))
      else if va.toNat / 4096 = 0x84B8 then some (b * 4096 + va.toNat % 4096)
      else none

/-- What the kernel reaches after `init_paging`: the pages `0xB7` (which is `0xB8`) to `0xBB` of
video memory, its own 4 MB, the first program page and the video page of the programs. -/
def supervisorMap (va : UInt32) : Option ℕ :=
  if va.toNat / 4096 = 0xB7 then some (0xB8000 + va.toNat % 4096)
  else if 0xB8 ≤ va.toNat / 4096 ∧ va.toNat / 4096 ≤ 0xBB then some va.toNat
  else if 0x400000 ≤ va.toNat ∧ va.toNat < 0x800000 then some va.toNat
  else if 0x8000000 ≤ va.toNat ∧ va.toNat < 0x8400000 then
    some (0x800000 + (va.toNat - 0x8000000))
  else if va.toNat / 4096 = 0x84B8 then some (0xB8000 + va.toNat % 4096)
  else none

lemma initPaging_supervisor (l : Layout) (pg : Paging) (va : UInt32) :
    walk l (initPaging l.pt0 l.vidmap pg) false va = supervisorMap va := by
  rw [initPaging_patched, walk_supervisor l pg _ _ (by decide) (by decide),
    walk_user l pg _ _ (by decide) (by decide), supervisorMap]
  by_cases hb8 : va.toNat / 4096 = 0xB8
  · have hmod : 0xB8 * 4096 + va.toNat % 4096 = va.toNat := by omega
    rw [if_pos hb8, if_neg (by omega), if_pos (by omega), hmod]
  · rw [if_neg hb8]
    rfl

/-- **Programs are isolated.**  After `init_paging` the kernel reaches exactly the memory of
`supervisorMap`.  In every run from boot that is orderly and in which every executed program
fits into the program page, a program never reaches more than the frame of its process and a
page of video memory. -/
theorem programs_isolated (img : Image) (l : Layout) (pg : Paging) (vram : ℕ → ℕ → UInt8)
    (mem : ℤ → Pcb) (m : Machine)
    (h : Runs.Reach (Machine.step img) (fun e m => Orderly img e m.kernel ∧ Fits img e)
      (bootMachine l pg vram mem) m) :
    (∀ va, walk l (initPaging l.pt0 l.vidmap pg) false va = supervisorMap va) ∧
      Isolated l m.kernel := by
  have hinv : Inv m.kernel m.live ∧ Mapped l pg m.kernel := by
    refine h.invariant (P := fun m => Inv m.kernel m.live ∧ Mapped l pg m.kernel)
      ⟨inv_boot l pg vram mem, 0, 0xB8, 0xB8, by decide, fun hne => absurd rfl hne, by decide,
        by decide, initPaging_patched l pg⟩ ?_
    intro e m₁ m₂ hm ho hs
    have hstep := hm.1.step ho.1 hs
    exact ⟨hstep, hm.2.step hm.1 hstep ho.2 ho.1 hs⟩
  obtain ⟨p, a, b, hp, hcur, -, hb, hpg⟩ := hinv.2
  refine ⟨initPaging_supervisor l pg, hinv.1.not_lost, p, b, hp, hcur, hb, fun va => ?_⟩
  rw [hpg]
  exact walk_user l pg a b hp.1 hp.2 va

/-- The last shell executes a program, and the display is switched to its terminal. -/
theorem programs_isolated_switched :
    ∃ m, Runs.run (Machine.step sampleImage)
        (bootShells ++ [.execute shellName noBuf, .enter, .key false 0x3D, .tick]) sampleMachine
          = some m ∧
      walk sampleLayout m.kernel.paging true 0x84B8004 = some 0xB9004 ∧
      (∀ va, walk sampleLayout (initPaging sampleLayout.pt0 sampleLayout.vidmap samplePaging) false
        va = supervisorMap va) ∧ Isolated sampleLayout m.kernel := by
  let es := bootShells ++ [Event.execute shellName noBuf, .enter, .key false 0x3D, .tick]
  have hrun : (Runs.run (Runs.guarded (Machine.step sampleImage)
      fun e m => Orderly sampleImage e m.kernel ∧ Fits sampleImage e) es sampleMachine).any
      (fun m => walk sampleLayout m.kernel.paging true 0x84B8004 = some 0xB9004) = true := by
    decide +kernel
  obtain ⟨m, hm, hwalk⟩ := (Option.any_eq_true _ _).1 hrun
  exact ⟨m, Runs.run_of_guarded hm, of_decide_eq_true hwalk, programs_isolated sampleImage
    sampleLayout samplePaging _ _ m (Runs.reach_of_guarded hm)⟩

/-- The shell with the pid 3 halts; while its slot is free, the next shell executes a program in
it, which halts at once.  When the terminal of the first shell comes, its process control block
says -1, and the frame of the kernel is mapped for programs. -/
theorem kernel_frame_mapped :
    ∃ m, Runs.Reach (Machine.step sampleImage) (fun _ _ => True) sampleMachine m ∧
      walk sampleLayout m.kernel.paging true 0x8000000 = some 0x400000 ∧
      ¬Isolated sampleLayout m.kernel := by
  let es := bootLate ++ [Event.tick, .tick, .halt, .tick, .execute shellName noBuf, .enter, .halt,
    .tick, .tick]
  have hrun : (Runs.run (Machine.step sampleImage) es sampleMachine).any
      (fun m => walk sampleLayout m.kernel.paging true 0x8000000 = some 0x400000) = true := by
    decide +kernel
  obtain ⟨m, hm, hstate⟩ := (Option.any_eq_true _ _).1 hrun
  have hwalk := of_decide_eq_true hstate
  refine ⟨m, Runs.reach_of_run (fun _ _ => trivial) hm, hwalk, fun hiso => ?_⟩
  obtain ⟨p, b, hp, -, -, hwalks⟩ := hiso.user
  have hp' := (hwalks 0x8000000).symm.trans hwalk
  rw [if_pos (by decide)] at hp'
  have heq := Option.some.inj hp'
  omega

end WnajOS
