import Mathlib.Tactic

/-!
# Paging (`paging.c`)

The page directory and the two page tables the kernel owns, the writes made by `init_paging`,
and the walk the processor makes through them.  The two tables lie at the physical pages
`pageTable0Page` and `userVidmapPage`, which the linker chooses; a directory entry that points
anywhere else is walked through whatever memory lies there.
-/

namespace WnajOS

/-- `VIDEO_MEM_ADDR`, the page of video memory. -/
def videoMemAddr : ℕ := 0xB8

/-- `PHYS_VIDMEM >> 12`, the page that always maps to video memory. -/
def physVidmem : ℕ := 0xB7

/-- `USER_PAGE_INDEX` and `USER_MEM_INDEX`: the directory entry of the program page. -/
def userPageIndex : ℕ := 32

/-- `USER_VIDMAP_PAGE_INDEX`. -/
def userVidmapPageIndex : ℕ := 33

/-- `page_dir_entry_desc_t`. -/
structure Pde where
  present : Bool
  readWrite : Bool
  userSupervisor : Bool
  writeThrough : Bool
  cacheDisabled : Bool
  accessed : Bool
  dirty : Bool
  pageSize : Bool
  global : Bool
  avail : ℕ
  addr : ℕ

/-- `page_table_entry_desc_t`. -/
structure Pte where
  present : Bool
  readWrite : Bool
  userSupervisor : Bool
  writeThrough : Bool
  cacheDisabled : Bool
  accessed : Bool
  dirty : Bool
  pageAttrTable : Bool
  global : Bool
  avail : ℕ
  addr : ℕ

/-- The page directory and the page tables, by index. -/
structure Paging where
  pageDirectory : ℕ → Pde
  pageTable0 : ℕ → Pte
  userVidmapTable : ℕ → Pte

/-- The directory entry that `set_pde` leaves. -/
def newPde (present readWrite userSuper pageSize : Bool) (startPhysAddress : ℕ) : Pde :=
  { present := present, readWrite := readWrite, userSupervisor := userSuper,
    pageSize := pageSize, writeThrough := false, cacheDisabled := false, accessed := false,
    dirty := false, global := false, avail := 0, addr := startPhysAddress % 2 ^ 20 }

/-- `set_pde`. -/
def setPde (present readWrite userSuper pageSize : Bool) (index startPhysAddress : ℕ)
    (pageDirectory : ℕ → Pde) : ℕ → Pde :=
  Function.update pageDirectory index
    (newPde present readWrite userSuper pageSize startPhysAddress)

/-- The table entry that `set_pte` leaves: the page is the one of the index. -/
def newPte (present readWrite userSuper : Bool) (index : ℕ) : Pte :=
  { present := present, readWrite := readWrite, userSupervisor := userSuper,
    writeThrough := false, cacheDisabled := false, accessed := false, dirty := false,
    pageAttrTable := false, global := false, avail := 0, addr := index }

/-- `set_pte`. -/
def setPte (present readWrite userSuper : Bool) (index : ℕ) (table : ℕ → Pte) : ℕ → Pte :=
  Function.update table index (newPte present readWrite userSuper index)

/-- The assignment of `addr_31_12` of one table entry. -/
def setPteAddr (index addr : ℕ) (table : ℕ → Pte) : ℕ → Pte :=
  Function.update table index { table index with addr := addr }

/-- The assignment of `addr_31_12` of one directory entry. -/
def setPdeAddr (index addr : ℕ) (pageDirectory : ℕ → Pde) : ℕ → Pde :=
  Function.update pageDirectory index { pageDirectory index with addr := addr }

/-- The first loop of `init_paging`, over `n` entries from `i` on: every entry of one table
becomes not present. -/
def clearTable (userSuper : Bool) : (n i : ℕ) → (ℕ → Pte) → ℕ → Pte
  | 0, _, table => table
  | n + 1, i, table => clearTable userSuper n (i + 1) (setPte false true userSuper i table)

/-- The second loop of `init_paging`, over `n` entries from `i` on. -/
def clearDirectory : (n i : ℕ) → (ℕ → Pde) → ℕ → Pde
  | 0, _, pageDirectory => pageDirectory
  | n + 1, i, pageDirectory =>
    clearDirectory n (i + 1) (setPde false true false true i 0 pageDirectory)

/-- The writes `init_paging` makes to `page_table_0`. -/
def initPageTable0 (table : ℕ → Pte) : ℕ → Pte :=
  let table := clearTable false 1024 0 table
  let table := setPte true true false videoMemAddr table
  let table := setPte true true false 0xB9 table
  let table := setPte true true false 0xBA table
  let table := setPte true true false 0xBB table
  let table := setPte true true false physVidmem table
  setPteAddr physVidmem videoMemAddr table

/-- The writes `init_paging` makes to `user_vidmap_table`. -/
def initVidmapTable (table : ℕ → Pte) : ℕ → Pte :=
  setPte true true true videoMemAddr (clearTable true 1024 0 table)

/-- The writes `init_paging` makes to the page directory; the tables lie at the physical pages
`pt0` and `vidmap`. -/
def initDirectory (pt0 vidmap : ℕ) (pageDirectory : ℕ → Pde) : ℕ → Pde :=
  let d := setPde true true false false 0 0 pageDirectory
  let d := setPde true true false true 1 (0x400000 / 4096) d
  let d := setPdeAddr 0 ((d 0).addr ||| pt0) d
  let d := clearDirectory 1022 2 d
  let d := setPde true true true true userPageIndex (0x800000 / 4096) d
  setPde true true true false userVidmapPageIndex vidmap d

/-- `init_paging`. -/
def initPaging (pt0 vidmap : ℕ) (pg : Paging) : Paging where
  pageDirectory := initDirectory pt0 vidmap pg.pageDirectory
  pageTable0 := initPageTable0 pg.pageTable0
  userVidmapTable := initVidmapTable pg.userVidmapTable

/-! ### The page walk -/

/-- The physical pages of the tables, and the table read at any other physical page. -/
structure Layout where
  pt0 : ℕ
  vidmap : ℕ
  memory : ℕ → ℕ → Pte
  ne : pt0 ≠ vidmap
  pt0_lt : pt0 < 2 ^ 20
  vidmap_lt : vidmap < 2 ^ 20

/-- The page table at a physical page. -/
def Layout.table (l : Layout) (pg : Paging) (page : ℕ) : ℕ → Pte :=
  if page = l.pt0 then pg.pageTable0
  else if page = l.vidmap then pg.userVidmapTable
  else l.memory page

/-- The walk of the processor at a virtual address, with user or supervisor privilege: the
physical address, `none` for a page fault.  A large page keeps the upper ten bits of the
entry's address. -/
def walk (l : Layout) (pg : Paging) (user : Bool) (va : UInt32) : Option ℕ :=
  let pde := pg.pageDirectory (va.toNat / 0x400000)
  if !pde.present || (user && !pde.userSupervisor) then none
  else if pde.pageSize then some (pde.addr / 1024 * 0x400000 + va.toNat % 0x400000)
  else
    let pte := l.table pg pde.addr (va.toNat / 4096 % 1024)
    if !pte.present || (user && !pte.userSupervisor) then none
    else some (pte.addr * 4096 + va.toNat % 4096)

/-! ### The loops of `init_paging` -/

lemma clearTable_of_lt {userSuper : Bool} {n i j : ℕ} (table : ℕ → Pte) (h : j < i) :
    clearTable userSuper n i table j = table j := by
  induction n generalizing i table with
  | zero => rfl
  | succ n ih => rw [clearTable, ih _ (by omega), setPte, Function.update_of_ne (by omega)]

lemma clearTable_apply {userSuper : Bool} {n i j : ℕ} (table : ℕ → Pte) (h : i ≤ j)
    (hn : j < i + n) : clearTable userSuper n i table j = newPte false true userSuper j := by
  induction n generalizing i table with
  | zero => omega
  | succ n ih =>
    rw [clearTable]
    by_cases hj : j = i
    · subst hj
      rw [clearTable_of_lt _ (by omega), setPte, Function.update_self]
    · exact ih _ (by omega) (by omega)

lemma clearDirectory_of_lt {n i j : ℕ} (d : ℕ → Pde) (h : j < i) :
    clearDirectory n i d j = d j := by
  induction n generalizing i d with
  | zero => rfl
  | succ n ih => rw [clearDirectory, ih _ (by omega), setPde, Function.update_of_ne (by omega)]

lemma clearDirectory_apply {n i j : ℕ} (d : ℕ → Pde) (h : i ≤ j) (hn : j < i + n) :
    clearDirectory n i d j = newPde false true false true 0 := by
  induction n generalizing i d with
  | zero => omega
  | succ n ih =>
    rw [clearDirectory]
    by_cases hj : j = i
    · subst hj
      rw [clearDirectory_of_lt _ (by omega), setPde, Function.update_self]
    · exact ih _ (by omega) (by omega)

/-! ### The tables after `init_paging` -/

lemma setPdeAddr_self (i n : ℕ) (d : ℕ → Pde) : setPdeAddr i n d i = { d i with addr := n } := by
  rw [setPdeAddr, Function.update_self]

lemma setPteAddr_self (i n : ℕ) (t : ℕ → Pte) : setPteAddr i n t i = { t i with addr := n } := by
  rw [setPteAddr, Function.update_self]

/-- The page directory after `init_paging`. -/
lemma initDirectory_apply (pt0 vidmap : ℕ) (d : ℕ → Pde) {i : ℕ} (hi : i < 1024) :
    initDirectory pt0 vidmap d i =
      if i = 33 then newPde true true true false vidmap
      else if i = 32 then newPde true true true true 0x800
      else if 2 ≤ i then newPde false true false true 0
      else if i = 1 then newPde true true false true 0x400
      else { newPde true true false false 0 with addr := pt0 } := by
  rw [initDirectory]
  dsimp only
  by_cases h33 : i = 33
  · subst h33
    rfl
  rw [if_neg h33, setPde, Function.update_of_ne (show i ≠ userVidmapPageIndex from h33)]
  by_cases h32 : i = 32
  · subst h32
    rfl
  rw [if_neg h32, setPde, Function.update_of_ne (show i ≠ userPageIndex from h32)]
  by_cases h2 : 2 ≤ i
  · rw [if_pos h2, clearDirectory_apply _ h2 (by omega)]
  rw [if_neg h2, clearDirectory_of_lt _ (by omega)]
  by_cases h1 : i = 1
  · subst h1
    rfl
  · obtain rfl : i = 0 := by omega
    rw [if_neg h1, setPdeAddr, Function.update_self]
    simp [setPde, newPde]

/-- `page_table_0` after `init_paging`: the five pages of video memory. -/
lemma initPageTable0_apply (t : ℕ → Pte) {i : ℕ} (hi : i < 1024) :
    initPageTable0 t i =
      if i = 0xB7 then { newPte true true false 0xB7 with addr := 0xB8 }
      else if 0xB8 ≤ i ∧ i ≤ 0xBB then newPte true true false i
      else newPte false true false i := by
  rw [initPageTable0]
  dsimp only
  by_cases hb7 : i = 0xB7
  · subst hb7
    rfl
  have hne : i ≠ physVidmem := hb7
  rw [if_neg hb7, setPteAddr, Function.update_of_ne hne, setPte, Function.update_of_ne hne]
  by_cases hvid : 0xB8 ≤ i ∧ i ≤ 0xBB
  · rw [if_pos hvid]
    obtain ⟨hlo, hhi⟩ := hvid
    interval_cases i <;> rfl
  · rw [if_neg hvid, setPte, Function.update_of_ne (by omega), setPte,
      Function.update_of_ne (by omega), setPte, Function.update_of_ne (by omega), setPte,
      Function.update_of_ne (by rw [videoMemAddr]; omega),
      clearTable_apply _ (Nat.zero_le _) (by omega)]

/-- `user_vidmap_table` after `init_paging`: one page. -/
lemma initVidmapTable_apply (t : ℕ → Pte) {i : ℕ} (hi : i < 1024) :
    initVidmapTable t i = newPte (i = 0xB8) true true i := by
  rw [initVidmapTable]
  by_cases h : i = 0xB8
  · subst h
    rfl
  · rw [setPte, Function.update_of_ne (show i ≠ videoMemAddr from h),
      clearTable_apply _ (Nat.zero_le _) (by omega)]
    simp [h]

end WnajOS
