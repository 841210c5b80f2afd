import Mathlib.Tactic
import Mathlib.Logic.Function.Iterate

/-!
# Programs of string instructions

A fragment of the 32-bit instruction set, as much as loops over bytes and the repeated string
instructions need.  All segments start at address 0, so that an address is a number of 32 bits.
`Halts` says that a program ends, with a property of the machine; a program is executed symbolically
by `Halts.step`.

The second half is about memory only: filling a range, and copying a range in pieces from its front
on or from its end on.
-/

namespace StringOps

/-- The registers that are used. -/
inductive Reg
  | eax | ecx | edx | esi | edi
deriving DecidableEq

/-- The machine. -/
structure Cpu where
  eax : UInt32
  ecx : UInt32
  edx : UInt32
  esi : UInt32
  edi : UInt32
  ds : UInt16
  es : UInt16
  zf : Bool
  cf : Bool
  df : Bool
  mem : UInt32 → UInt8
  pc : ℕ

/-- The instructions, with labels `L`; the operands stand as the assembler has them, the destination
last. -/
inductive Instr (L : Type)
  | label (l : L)
  | testl (src dst : Reg)
  | testlImm (imm : UInt32) (dst : Reg)
  | cmpl (src dst : Reg)
  | jz (l : L)
  | jae (l : L)
  | jmp (l : L)
  | addl (imm : UInt32) (dst : Reg)
  | subl (imm : UInt32) (dst : Reg)
  | andl (imm : UInt32) (dst : Reg)
  | shrl (imm : UInt32) (dst : Reg)
  | movl (src dst : Reg)
  | leal (disp : UInt32) (base index dst : Reg)
  /-- `movb (%ptr), %al` -/
  | loadAl (ptr : Reg)
  /-- `movb %al, (%ptr)` -/
  | storeAl (ptr : Reg)
  | movwDsDx
  | movwDxEs
  | cld
  | std
  /-- `rep stos` with elements of `width` bytes -/
  | repStos (width : ℕ)
  /-- `rep movs` with elements of `width` bytes -/
  | repMovs (width : ℕ)
deriving DecidableEq

/-! ### Memory -/

/-- A range of `n` bytes from `a` on is set to `c`. -/
def fill (mem : UInt32 → UInt8) (a : UInt32) (n : ℕ) (c : UInt8) : UInt32 → UInt8 :=
  fun x => if (x - a).toNat < n then c else mem x

/-- An element of `width` bytes is stored, the lowest byte first. -/
def storeBytes (width : ℕ) (mem : UInt32 → UInt8) (a v : UInt32) : UInt32 → UInt8 :=
  fun x => if (x - a).toNat < width then (v >>> (8 * (x - a))).toUInt8 else mem x

/-- `n` bytes are read and then stored. -/
def copyBytes (n : ℕ) (dest src : UInt32) (mem : UInt32 → UInt8) : UInt32 → UInt8 :=
  fun x => if (x - dest).toNat < n then mem (src + (x - dest)) else mem x

/-- A range is copied in pieces of the given widths, from its front on. -/
def copyPieces : List ℕ → (dest src : UInt32) → (UInt32 → UInt8) → UInt32 → UInt8
  | [], _, _, mem => mem
  | w :: ws, dest, src, mem =>
    copyPieces ws (dest + UInt32.ofNat w) (src + UInt32.ofNat w) (copyBytes w dest src mem)

/-- A range of `n` bytes is copied byte by byte, from its end on. -/
def copyDown : ℕ → (dest src : UInt32) → (UInt32 → UInt8) → UInt32 → UInt8
  | 0, _, _, mem => mem
  | n + 1, dest, src, mem =>
    copyDown n dest src (copyBytes 1 (dest + UInt32.ofNat n) (src + UInt32.ofNat n) mem)

/-! ### Execution -/

namespace Cpu

/-- The content of a register. -/
def get (s : Cpu) : Reg → UInt32
  | .eax => s.eax
  | .ecx => s.ecx
  | .edx => s.edx
  | .esi => s.esi
  | .edi => s.edi

/-- A register is loaded. -/
def set (s : Cpu) (r : Reg) (v : UInt32) : Cpu :=
  match r with
  | .eax => { s with eax := v }
  | .ecx => { s with ecx := v }
  | .edx => { s with edx := v }
  | .esi => { s with esi := v }
  | .edi => { s with edi := v }

/-- On to the next instruction. -/
def next (s : Cpu) : Cpu := { s with pc := s.pc + 1 }

/-- The flags after a result. -/
def flags (s : Cpu) (result : UInt32) (carry : Bool) : Cpu :=
  { s with zf := result = 0, cf := carry }

/-- What a string instruction adds to its pointers. -/
def stride (s : Cpu) (width : ℕ) : UInt32 :=
  if s.df then -UInt32.ofNat width else UInt32.ofNat width

/-- A turn of `rep stos`. -/
def stos (width : ℕ) (s : Cpu) : Cpu :=
  { s with
    mem := storeBytes width s.mem s.edi s.eax, edi := s.edi + s.stride width, ecx := s.ecx - 1 }

/-- A turn of `rep movs`. -/
def movs (width : ℕ) (s : Cpu) : Cpu :=
  { s with
    mem := copyBytes width s.edi s.esi s.mem, edi := s.edi + s.stride width,
    esi := s.esi + s.stride width, ecx := s.ecx - 1 }

end Cpu

section Execution

variable {L : Type} [DecidableEq L]

/-- A jump. -/
def Cpu.jump (code : List (Instr L)) (l : L) (s : Cpu) : Cpu :=
  { s with pc := code.idxOf (.label l) }

/-- An instruction of the code. -/
def exec (code : List (Instr L)) (s : Cpu) : Instr L → Cpu
  | .label _ => s.next
  | .testl src dst => (s.flags (s.get dst &&& s.get src) false).next
  | .testlImm imm dst => (s.flags (s.get dst &&& imm) false).next
  | .cmpl src dst => (s.flags (s.get dst - s.get src) (s.get dst < s.get src)).next
  | .jz l => if s.zf then s.jump code l else s.next
  | .jae l => if s.cf then s.next else s.jump code l
  | .jmp l => s.jump code l
  | .addl imm dst =>
    ((s.set dst (s.get dst + imm)).flags (s.get dst + imm) (s.get dst + imm < imm)).next
  | .subl imm dst =>
    ((s.set dst (s.get dst - imm)).flags (s.get dst - imm) (s.get dst < imm)).next
  | .andl imm dst => ((s.set dst (s.get dst &&& imm)).flags (s.get dst &&& imm) false).next
  | .shrl imm dst =>
    ((s.set dst (s.get dst >>> imm)).flags (s.get dst >>> imm)
      ((s.get dst >>> (imm - 1)) &&& 1 = 1)).next
  | .movl src dst => (s.set dst (s.get src)).next
  | .leal disp base index dst => (s.set dst (s.get base + s.get index + disp)).next
  | .loadAl ptr =>
    (s.set .eax ((s.eax &&& 0xFFFFFF00) ||| (s.mem (s.get ptr)).toUInt32)).next
  | .storeAl ptr => { s with mem := Function.update s.mem (s.get ptr) s.eax.toUInt8 }.next
  | .movwDsDx => (s.set .edx ((s.edx &&& 0xFFFF0000) ||| s.ds.toUInt32)).next
  | .movwDxEs => { s with es := s.edx.toUInt16 }.next
  | .cld => { s with df := false }.next
  | .std => { s with df := true }.next
  | .repStos width => ((Cpu.stos width)^[s.ecx.toNat] s).next
  | .repMovs width => ((Cpu.movs width)^[s.ecx.toNat] s).next

/-- The machine behind the code, when it takes at most `n` instructions to get there. -/
def run (code : List (Instr L)) : ℕ → Cpu → Option Cpu
  | 0, _ => none
  | n + 1, s =>
    match code[s.pc]? with
    | none => some s
    | some i => run code n (exec code s i)

/-- The code comes to its end, with a property of the machine. -/
def Halts (code : List (Instr L)) (Q : Cpu → Prop) (s : Cpu) : Prop :=
  ∃ n t, run code n s = some t ∧ Q t

variable {code : List (Instr L)} {Q Q' : Cpu → Prop} {s : Cpu}

lemma Halts.done (h : code[s.pc]? = none) (hQ : Q s) : Halts code Q s := by
  refine ⟨1, s, ?_, hQ⟩
  rw [run, h]

/-- One instruction of a symbolic execution. -/
lemma Halts.step {i : Instr L} (h : code[s.pc]? = some i) (h' : Halts code Q (exec code s i)) :
    Halts code Q s := by
  obtain ⟨n, t, hrun, hQ⟩ := h'
  refine ⟨n + 1, t, ?_, hQ⟩
  rw [run, h]
  exact hrun

lemma Halts.mono (hQ : ∀ t, Q t → Q' t) (h : Halts code Q s) : Halts code Q' s := by
  obtain ⟨n, t, hrun, ht⟩ := h
  exact ⟨n, t, hrun, hQ t ht⟩

/-- The end does not depend on the number of instructions allowed. -/
lemma run_unique {n m : ℕ} {t u : Cpu} (ht : run code n s = some t) (hu : run code m s = some u) :
    t = u := by
  induction n generalizing m s with
  | zero => exact absurd ht (by simp [run])
  | succ n ih =>
    cases m with
    | zero => exact absurd hu (by simp [run])
    | succ m =>
      rw [run] at ht hu
      cases hi : code[s.pc]? with
      | none =>
        rw [hi] at ht hu
        exact (Option.some.inj ht).symm.trans (Option.some.inj hu)
      | some i =>
        rw [hi] at ht hu
        exact ih ht hu

/-- A conditional jump that is taken. -/
lemma exec_jz_of (l : L) (h : s.zf = true) : exec code s (.jz l) = s.jump code l := if_pos h

/-- A conditional jump that is not taken. -/
lemma exec_jz_of_not (l : L) (h : s.zf = false) : exec code s (.jz l) = s.next :=
  if_neg (by rw [h]; exact Bool.false_ne_true)

lemma exec_jae_of (l : L) (h : s.cf = false) : exec code s (.jae l) = s.jump code l :=
  if_neg (by rw [h]; exact Bool.false_ne_true)

lemma exec_jae_of_not (l : L) (h : s.cf = true) : exec code s (.jae l) = s.next := if_pos h

end Execution

/-! ### Ranges -/

section Ranges

variable {mem : UInt32 → UInt8} {a dest src x : UInt32} {n m w i : ℕ} {c : UInt8}

lemma toNat_sub_add_ofNat (hn : n < 2 ^ 32) : (x - (a + UInt32.ofNat n)).toNat =
    if n ≤ (x - a).toNat then (x - a).toNat - n else (x - a).toNat + 2 ^ 32 - n := by
  have hx := (x - a).toNat_lt
  have heq : x - (a + UInt32.ofNat n) = (x - a) - UInt32.ofNat n := by grind
  rw [heq, UInt32.toNat_sub, UInt32.toNat_ofNat_of_lt' hn]
  split
  · omega
  · omega

lemma fill_zero : fill mem a 0 c = mem := by
  funext x
  exact if_neg (Nat.not_lt_zero _)

/-- Two ranges behind each other. -/
lemma fill_fill (h : n + m ≤ 2 ^ 32) (hn : n < 2 ^ 32) :
    fill (fill mem a n c) (a + UInt32.ofNat n) m c = fill mem a (n + m) c := by
  funext x
  have hx := (x - a).toNat_lt
  rw [fill, fill, fill, toNat_sub_add_ofNat hn]
  by_cases hlt : (x - a).toNat < n
  · rw [if_pos hlt, ite_self, if_pos (by omega)]
  · rw [if_pos (not_lt.1 hlt), if_neg hlt]
    exact if_congr (by omega) rfl rfl

lemma update_eq_fill : Function.update mem a c = fill mem a 1 c := by
  funext x
  rw [fill]
  by_cases hx : x = a
  · rw [hx, Function.update_self, UInt32.sub_self, if_pos (by decide)]
  · rw [Function.update_of_ne hx, if_neg]
    intro hlt
    have h0 : (x - a).toNat = (0 : UInt32).toNat := Nat.lt_one_iff.1 hlt
    have heq := UInt32.sub_eq_iff_eq_add.1 (UInt32.toNat_inj.1 h0)
    rw [UInt32.zero_add] at heq
    exact hx heq

/-- A byte stored by itself. -/
lemma update_eq_copyBytes : Function.update mem dest (mem src) = copyBytes 1 dest src mem := by
  rw [update_eq_fill]
  funext x
  rw [fill, copyBytes]
  split
  · rename_i hlt
    have h0 : (x - dest).toNat = (0 : UInt32).toNat := Nat.lt_one_iff.1 hlt
    rw [UInt32.toNat_inj.1 h0, UInt32.add_zero]
  · rfl

lemma add_ofNat_sub (hi : i < 2 ^ 32) : (a + UInt32.ofNat i - a).toNat = i := by
  have heq : a + UInt32.ofNat i - a = UInt32.ofNat i := by grind
  rw [heq, UInt32.toNat_ofNat_of_lt' hi]

lemma add_ofNat_toNat_sub : a + UInt32.ofNat (x - a).toNat = x := by
  rw [UInt32.ofNat_toNat]
  grind

lemma ofNat_add (n m : ℕ) : UInt32.ofNat (n + m) = UInt32.ofNat n + UInt32.ofNat m :=
  UInt32.ofNat_add n m

/-! ### Pieces from the front on -/

section Pieces

variable {ws : List ℕ}

/-- Pieces behind each other. -/
lemma copyPieces_append {ws' : List ℕ} :
    copyPieces (ws ++ ws') dest src mem = copyPieces ws' (dest + UInt32.ofNat ws.sum)
      (src + UInt32.ofNat ws.sum) (copyPieces ws dest src mem) := by
  induction ws generalizing dest src mem with
  | nil =>
    rw [List.nil_append, List.sum_nil, show UInt32.ofNat 0 = 0 from rfl, UInt32.add_zero,
      UInt32.add_zero, copyPieces]
  | cons w ws ih =>
    rw [List.cons_append, copyPieces, ih, copyPieces, List.sum_cons, ofNat_add, UInt32.add_assoc,
      UInt32.add_assoc]

/-- Behind the range nothing is stored. -/
lemma copyPieces_of_ge (h : ws.sum < 2 ^ 32) (hx : ws.sum ≤ (x - dest).toNat) :
    copyPieces ws dest src mem x = mem x := by
  induction ws generalizing dest src mem with
  | nil => rfl
  | cons w ws ih =>
    rw [List.sum_cons] at h hx
    have hrest : ws.sum ≤ (x - (dest + UInt32.ofNat w)).toNat := by
      rw [toNat_sub_add_ofNat (by omega), if_pos (by omega)]
      omega
    rw [copyPieces, ih (by omega) hrest]
    exact if_neg (by omega)

/-- A byte that was not stored to before its piece is read arrives. -/
lemma copyPieces_apply (h : ws.sum < 2 ^ 32) (hi : i < ws.sum)
    (hread : i ≤ (src + UInt32.ofNat i - dest).toNat) :
    copyPieces ws dest src mem (dest + UInt32.ofNat i) = mem (src + UInt32.ofNat i) := by
  induction ws generalizing dest src mem i with
  | nil => exact absurd hi (Nat.not_lt_zero i)
  | cons w ws ih =>
    rw [List.sum_cons] at h hi
    rw [copyPieces]
    by_cases hw : i < w
    · -- in the first piece
      have hout : ws.sum ≤ (dest + UInt32.ofNat i - (dest + UInt32.ofNat w)).toNat := by
        rw [toNat_sub_add_ofNat (by omega), add_ofNat_sub (by omega), if_neg (by omega)]
        omega
      have heq : dest + UInt32.ofNat i - dest = UInt32.ofNat i := by grind
      rw [copyPieces_of_ge (by omega) hout, copyBytes, add_ofNat_sub (by omega), if_pos hw, heq]
    · obtain ⟨j, rfl⟩ : ∃ j, i = w + j := ⟨i - w, by omega⟩
      have hsrc : src + UInt32.ofNat (w + j) = src + UInt32.ofNat w + UInt32.ofNat j := by
        rw [ofNat_add, UInt32.add_assoc]
      have hdest : dest + UInt32.ofNat (w + j) = dest + UInt32.ofNat w + UInt32.ofNat j := by
        rw [ofNat_add, UInt32.add_assoc]
      have hread' : j ≤ (src + UInt32.ofNat w + UInt32.ofNat j - (dest + UInt32.ofNat w)).toNat := by
        rw [← hsrc, toNat_sub_add_ofNat (by omega), if_pos (by omega)]
        omega
      rw [hdest, ih (by omega) (by omega) hread', ← hsrc, copyBytes, if_neg (by omega)]

/-- **A copy in pieces** is a copy, when the range does not begin within what is still to be
read. -/
theorem copyPieces_eq (h : ws.sum < 2 ^ 32)
    (hapart : dest = src ∨ ws.sum ≤ (dest - src).toNat) :
    copyPieces ws dest src mem = copyBytes ws.sum dest src mem := by
  funext x
  rw [copyBytes]
  split
  · rename_i hx
    generalize hk : (x - dest).toNat = k at hx
    obtain rfl : dest + UInt32.ofNat k = x := hk ▸ add_ofNat_toNat_sub
    have heq : dest + UInt32.ofNat k - dest = UInt32.ofNat k := by grind
    rw [heq]
    refine copyPieces_apply h hx ?_
    rcases hapart with rfl | hapart
    · rw [add_ofNat_sub (by omega)]
    · have hsub : src + UInt32.ofNat k - dest = UInt32.ofNat k - (dest - src) := by grind
      have hlt := (dest - src).toNat_lt
      rw [hsub, UInt32.toNat_sub, UInt32.toNat_ofNat_of_lt' (show k < 2 ^ 32 by omega)]
      omega
  · rename_i hx
    exact copyPieces_of_ge h (not_lt.1 hx)

lemma copyBytes_apply (hi : i < 2 ^ 32) : copyBytes n dest src mem (dest + UInt32.ofNat i) =
    if i < n then mem (src + UInt32.ofNat i) else mem (dest + UInt32.ofNat i) := by
  have heq : dest + UInt32.ofNat i - dest = UInt32.ofNat i := by grind
  rw [copyBytes, add_ofNat_sub hi, heq]

/-- A byte behind the first piece that is read where the first piece was stored. -/
lemma copyPieces_overlap (h : (w :: ws).sum < 2 ^ 32) (hw : w ≤ i) (hi : i < (w :: ws).sum)
    (hread : (src + UInt32.ofNat i - dest).toNat < w) :
    copyPieces (w :: ws) dest src mem (dest + UInt32.ofNat i) =
      mem (src + (src + UInt32.ofNat i - dest)) := by
  rw [List.sum_cons] at h hi
  obtain ⟨j, rfl⟩ : ∃ j, i = w + j := ⟨i - w, by omega⟩
  have hsrc : src + UInt32.ofNat (w + j) = src + UInt32.ofNat w + UInt32.ofNat j := by
    rw [ofNat_add, UInt32.add_assoc]
  have hdest : dest + UInt32.ofNat (w + j) = dest + UInt32.ofNat w + UInt32.ofNat j := by
    rw [ofNat_add, UInt32.add_assoc]
  have hread' : j ≤ (src + UInt32.ofNat w + UInt32.ofNat j - (dest + UInt32.ofNat w)).toNat := by
    rw [← hsrc, toNat_sub_add_ofNat (by omega), if_neg (by omega)]
    omega
  rw [copyPieces, hdest, copyPieces_apply (by omega) (by omega) hread', ← hsrc, copyBytes,
    if_pos hread]

/-- Then some memory is not copied. -/
theorem copyPieces_clash (h : (w :: ws).sum < 2 ^ 32) (hw : w ≤ i) (hi : i < (w :: ws).sum)
    (hread : (src + UInt32.ofNat i - dest).toNat < w) (hne : dest ≠ src) :
    ∃ mem, copyPieces (w :: ws) dest src mem (dest + UInt32.ofNat i) ≠
      mem (src + UInt32.ofNat i) := by
  refine ⟨fun x => if x = src + UInt32.ofNat i then 1 else 0, ?_⟩
  rw [copyPieces_overlap h hw hi hread]
  dsimp only
  rw [if_pos rfl, if_neg]
  · decide
  · intro heq
    exact hne (by grind)

end Pieces

/-! ### Bytes from the end on -/

section Down

lemma copyBytes_one_of_ne (h : x ≠ dest) : copyBytes 1 dest src mem x = mem x := by
  rw [← update_eq_copyBytes, Function.update_of_ne h]

lemma copyDown_of_ge (h : n < 2 ^ 32) (hx : n ≤ (x - dest).toNat) :
    copyDown n dest src mem x = mem x := by
  induction n generalizing mem with
  | zero => rfl
  | succ n ih =>
    rw [copyDown, ih (by omega) (by omega)]
    refine copyBytes_one_of_ne ?_
    rintro rfl
    rw [add_ofNat_sub (by omega)] at hx
    omega

/-- A byte that was not stored to before it is read arrives. -/
lemma copyDown_apply (h : n < 2 ^ 32) (hi : i < n)
    (hread : (src + UInt32.ofNat i - dest).toNat ≤ i ∨ n ≤ (src + UInt32.ofNat i - dest).toNat) :
    copyDown n dest src mem (dest + UInt32.ofNat i) = mem (src + UInt32.ofNat i) := by
  induction n generalizing mem with
  | zero => exact absurd hi (Nat.not_lt_zero i)
  | succ n ih =>
    rw [copyDown]
    by_cases hin : i = n
    · subst hin
      rw [copyDown_of_ge (by omega) (by rw [add_ofNat_sub (by omega)]), ← update_eq_copyBytes,
        Function.update_self]
    · rw [ih (by omega) (by omega) (by omega)]
      refine copyBytes_one_of_ne fun heq => ?_
      rw [heq, add_ofNat_sub (by omega)] at hread
      omega

/-- **A copy from the end on** is a copy, when the source does not begin within the range. -/
theorem copyDown_eq (h : n < 2 ^ 32) (hapart : n ≤ (src - dest).toNat) :
    copyDown n dest src mem = copyBytes n dest src mem := by
  funext x
  rw [copyBytes]
  split
  · rename_i hx
    generalize hk : (x - dest).toNat = k at hx
    obtain rfl : dest + UInt32.ofNat k = x := hk ▸ add_ofNat_toNat_sub
    have heq : dest + UInt32.ofNat k - dest = UInt32.ofNat k := by grind
    rw [heq]
    refine copyDown_apply h hx ?_
    have hadd : src + UInt32.ofNat k - dest = src - dest + UInt32.ofNat k := by grind
    have hlt := (src - dest).toNat_lt
    rw [hadd, UInt32.toNat_add, UInt32.toNat_ofNat_of_lt' (show k < 2 ^ 32 by omega)]
    omega
  · rename_i hx
    exact copyDown_of_ge h (not_lt.1 hx)

end Down

end Ranges

/-! ### The repeated instructions -/

section Repeated

variable {s : Cpu} {w n : ℕ} {c : UInt8} {dest src : UInt32}

/-- The low bytes of a register are all the same. -/
def BytesOf (width : ℕ) (v : UInt32) (c : UInt8) : Prop :=
  ∀ i : UInt32, i.toNat < width → (v >>> (8 * i)).toUInt8 = c

lemma storeBytes_eq_fill {mem : UInt32 → UInt8} {a v : UInt32} (h : BytesOf w v c) :
    storeBytes w mem a v = fill mem a w c := by
  funext x
  rw [storeBytes, fill]
  split
  · rename_i hx
    exact h _ hx
  · rfl

/-- `rep stos` of a register whose bytes are all the same. -/
lemma iterate_stos (hdf : s.df = false) (hbytes : BytesOf w s.eax c) (h : w * n < 2 ^ 32) :
    (Cpu.stos w)^[n] s = { s with
      mem := fill s.mem s.edi (w * n) c, edi := s.edi + UInt32.ofNat (w * n),
      ecx := s.ecx - UInt32.ofNat n } := by
  induction n with
  | zero =>
    rw [Function.iterate_zero, id, Nat.mul_zero, fill_zero, show UInt32.ofNat 0 = 0 from rfl,
      UInt32.add_zero, UInt32.sub_zero]
  | succ n ih =>
    rw [Nat.mul_succ] at h
    rw [Function.iterate_succ_apply', ih (by omega), Cpu.stos]
    dsimp only [Cpu.stride]
    rw [hdf, storeBytes_eq_fill hbytes, fill_fill (by omega) (by omega), if_neg Bool.false_ne_true,
      Nat.mul_succ, ofNat_add (w * n) w, ofNat_add n 1, UInt32.add_assoc]
    have hecx : s.ecx - UInt32.ofNat n - 1 = s.ecx - (UInt32.ofNat n + UInt32.ofNat 1) := by
      rw [show UInt32.ofNat 1 = 1 from rfl]
      grind
    rw [hecx]

/-- `rep movs` upwards. -/
lemma iterate_movs (hdf : s.df = false) :
    (Cpu.movs w)^[n] s = { s with
      mem := copyPieces (List.replicate n w) s.edi s.esi s.mem,
      edi := s.edi + UInt32.ofNat (w * n), esi := s.esi + UInt32.ofNat (w * n),
      ecx := s.ecx - UInt32.ofNat n } := by
  induction n generalizing s with
  | zero =>
    rw [Function.iterate_zero, id, Nat.mul_zero, List.replicate_zero, copyPieces,
      show UInt32.ofNat 0 = 0 from rfl, UInt32.add_zero, UInt32.add_zero, UInt32.sub_zero]
  | succ n ih =>
    have hnext : (Cpu.movs w s).df = false := hdf
    rw [Function.iterate_succ_apply, ih hnext, List.replicate_succ, copyPieces, Cpu.movs]
    dsimp only [Cpu.stride]
    rw [hdf, if_neg Bool.false_ne_true, Nat.mul_succ, Nat.add_comm (w * n), ofNat_add w (w * n),
      ofNat_add n 1, UInt32.add_assoc, UInt32.add_assoc]
    have hecx : s.ecx - 1 - UInt32.ofNat n = s.ecx - (UInt32.ofNat n + UInt32.ofNat 1) := by
      rw [show UInt32.ofNat 1 = 1 from rfl]
      grind
    rw [hecx]

/-- `rep movsb` downwards. -/
lemma iterate_movs_down (hdf : s.df = true) (hedi : s.edi = dest + UInt32.ofNat n - 1)
    (hesi : s.esi = src + UInt32.ofNat n - 1) :
    (Cpu.movs 1)^[n] s = { s with
      mem := copyDown n dest src s.mem, edi := dest - 1, esi := src - 1,
      ecx := s.ecx - UInt32.ofNat n } := by
  induction n generalizing s with
  | zero =>
    have h0 : UInt32.ofNat 0 = 0 := rfl
    rw [h0, UInt32.add_zero] at hedi hesi
    rw [Function.iterate_zero, id, copyDown, h0, UInt32.sub_zero, ← hedi, ← hesi]
  | succ n ih =>
    have h1 : UInt32.ofNat 1 = 1 := rfl
    rw [ofNat_add, h1] at hedi hesi
    have hedi' : s.edi = dest + UInt32.ofNat n := by grind
    have hesi' : s.esi = src + UInt32.ofNat n := by grind
    have hstep : Cpu.movs 1 s = { s with
        mem := copyBytes 1 (dest + UInt32.ofNat n) (src + UInt32.ofNat n) s.mem,
        edi := dest + UInt32.ofNat n - 1, esi := src + UInt32.ofNat n - 1, ecx := s.ecx - 1 } := by
      rw [Cpu.movs, Cpu.stride, hdf, if_pos rfl, hedi', hesi', h1, UInt32.add_neg_eq_sub,
        UInt32.add_neg_eq_sub]
    have hnext := congrArg Cpu.df hstep
    have hedi'' := congrArg Cpu.edi hstep
    have hesi'' := congrArg Cpu.esi hstep
    rw [Function.iterate_succ_apply, ih (hnext.trans hdf) hedi'' hesi'', hstep, copyDown]
    have hecx : s.ecx - 1 - UInt32.ofNat n = s.ecx - UInt32.ofNat (n + 1) := by
      rw [ofNat_add, h1]
      grind
    rw [hecx]

variable {L : Type} [DecidableEq L] {code : List (Instr L)} {Q : Cpu → Prop}

lemma sub_ofNat_toNat (v : UInt32) : v - UInt32.ofNat v.toNat = 0 := by
  rw [UInt32.ofNat_toNat, UInt32.sub_self]

/-- `rep stos` of a symbolic execution. -/
lemma Halts.repStos (h : code[s.pc]? = some (.repStos w)) (hdf : s.df = false)
    (hbytes : BytesOf w s.eax c) (hlt : w * s.ecx.toNat < 2 ^ 32)
    (h' : Halts code Q { s with
      mem := fill s.mem s.edi (w * s.ecx.toNat) c,
      edi := s.edi + UInt32.ofNat (w * s.ecx.toNat), ecx := 0, pc := s.pc + 1 }) :
    Halts code Q s := by
  refine Halts.step h ?_
  rw [exec, iterate_stos hdf hbytes hlt, sub_ofNat_toNat]
  exact h'

/-- `rep movs` upwards. -/
lemma Halts.repMovs (h : code[s.pc]? = some (.repMovs w)) (hdf : s.df = false)
    (h' : Halts code Q { s with
      mem := copyPieces (List.replicate s.ecx.toNat w) s.edi s.esi s.mem,
      edi := s.edi + UInt32.ofNat (w * s.ecx.toNat), esi := s.esi + UInt32.ofNat (w * s.ecx.toNat),
      ecx := 0, pc := s.pc + 1 }) :
    Halts code Q s := by
  refine Halts.step h ?_
  rw [exec, iterate_movs hdf, sub_ofNat_toNat]
  exact h'

/-- `rep movsb` downwards. -/
lemma Halts.repMovs_down (h : code[s.pc]? = some (.repMovs 1)) (hdf : s.df = true)
    (hedi : s.edi = dest + UInt32.ofNat s.ecx.toNat - 1)
    (hesi : s.esi = src + UInt32.ofNat s.ecx.toNat - 1)
    (h' : Halts code Q { s with
      mem := copyDown s.ecx.toNat dest src s.mem, edi := dest - 1, esi := src - 1, ecx := 0,
      pc := s.pc + 1 }) :
    Halts code Q s := by
  refine Halts.step h ?_
  rw [exec, iterate_movs_down hdf hedi hesi, sub_ofNat_toNat]
  exact h'

end Repeated

end StringOps
