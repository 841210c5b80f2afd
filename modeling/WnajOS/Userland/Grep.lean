import WnajOS.Library.CutLines
import WnajOS.Userland.Cat

/-!
# `grep`

`do_one_file` reads a file through an array of 1024 bytes.  It searches the lines that are in the
array as a whole and moves the beginning of the last one to the front, before it reads on.  A line
that fills the array is searched as it is there, and its rest like another line.

The string functions stop at a `NUL`: a line is printed up to its first one, and what stands behind
it in a line that is moved is lost.  For a file without a `NUL`, what is printed is what a search of
the lines of the whole text, cut at 1024 bytes, would print.
-/

namespace WnajOS

namespace Userland

open Programs

/-! ### `ece391grep.c` -/

/-- The loop for the end of a line, with `n` bytes left, at index `lineEnd`. -/
def lineEndFrom (data : Buf) : (n lineEnd : ℕ) → ℕ
  | 0, lineEnd => lineEnd
  | n + 1, lineEnd => if data lineEnd ≠ 10 then lineEndFrom data n (lineEnd + 1) else lineEnd

/-- The loop over a line, with `n` positions left, at index `check`: whether the string is found. -/
def foundFrom (s : Str) (data : Buf) : (n check : ℕ) → Bool
  | 0, _ => false
  | n + 1, check =>
    if s.byteAt 0 = data check ∧
        ece391Strncmp (fun j => data (check + j)) s.byteAt (strlen s) = 0 then true
    else foundFrom s data n (check + 1)

/-- The search of a line, and the line if the string is found. -/
def searchLine (s fname : Str) (data : Buf) (lineStart lineEnd : ℕ) : UserProgram Unit := do
  if foundFrom s data (lineEnd - lineStart) lineStart then
    fdputs 1 fname
    fdputs 1 (text ":")
    fdputs 1 (strAt data 1025 lineStart)
    fdputs 1 (text "\n")
  return ()

/-- The inner loop of `do_one_file`, on `data` and `line_start`.  It ends with `data` and `last`. -/
def lineTurn (s fname : Str) (cnt : Int32) (last : ℕ) :
    Buf × ℕ → UserProgram ((Buf × ℕ) ⊕ (Buf × ℕ)) := fun (data, lineStart) => do
  let lineEnd := lineEndFrom data (last - lineStart) lineStart
  if data lineEnd ≠ 10 ∧ cnt ≠ 0 ∧ lineStart ≠ 0 then
    let data := ece391Strcpy (1025 - lineStart) 0 lineStart (Function.update data lineEnd 0)
    return .inr (data, last - lineStart)
  let data := Function.update data lineEnd 0
  searchLine s fname data lineStart lineEnd
  if lineEnd + 1 ≥ last then return .inr (data, 0)
  return .inl (data, lineEnd + 1)

/-- The outer loop of `do_one_file`, on `data` and `last`. -/
def fileTurn (turns : ℕ) (s fname : Str) (fd : Int32) :
    Buf × ℕ → UserProgram ((Buf × ℕ) ⊕ Int32) := fun (data, last) => do
  let (cnt, buf) ←
    Program.ask (.read fd (fun i => data (last + i)) (Int32.ofNat (1024 - last)))
  if cnt = -1 then
    fdputs 1 (text "file read failed\n")
    return .inr (-1)
  let data := fun i => if i < last then data i else buf (i - last)
  let (data, last) ←
    Program.loop (lineTurn s fname cnt (last + cnt.toInt.toNat)) turns (data, 0)
  if cnt = 0 then return .inr 0
  return .inl (data, last)

/-- `do_one_file`.  `data` is the array as it is at first. -/
def doOneFile (turns : ℕ) (s fname : Str) (data : Buf) : UserProgram Int32 := do
  let fd ← returned (.openFile fname)
  if fd = -1 then
    fdputs 1 (text "file open failed\n")
    return -1
  let ret ← Program.loop (fileTurn turns s fname fd) turns (data, 0)
  if ret = -1 then return -1
  let ret ← returned (.close fd)
  if ret = -1 then
    fdputs 1 (text "file close failed\n")
    return -1
  return 0

/-- The loop of `main`, on `buf` and the number of files that were searched.  `fresh` is the array
of `do_one_file` as each of its calls finds it. -/
def grepTurn (turns : ℕ) (search : Str) (fd : Int32) (fresh : ℕ → Buf) :
    Buf × ℕ → UserProgram ((Buf × ℕ) ⊕ Int32) := fun (buf, k) => do
  let (cnt, buf) ← Program.ask (.read fd buf 32)
  if cnt = 0 then return .inr 0
  if cnt = -1 then
    fdputs 1 (text "directory entry read failed\n")
    return .inr 3
  if buf 0 = 46 then return .inl (buf, k)
  let buf := Function.update buf cnt.toInt.toNat 0
  let ret ← doOneFile turns search (strAt buf 33 0) (fresh k)
  if ret ≠ 0 then return .inr 3
  return .inl (buf, k + 1)

/-- `main`. -/
def grep (turns : ℕ) (buf search : Buf) (fresh : ℕ → Buf) : UserProgram Int32 := do
  let (ret, search) ← Program.ask (.getargs search 1024)
  if ret ≠ 0 then
    fdputs 1 (text "could not read argument\n")
    return 3
  let fd ← returned (.openFile (text "."))
  if fd = -1 then
    fdputs 1 (text "directory open failed\n")
    return 2
  Program.loop (grepTurn turns (strAt search 1024 0) fd fresh) turns (buf, 0)

/-! ### What is printed -/

/-- The bytes with a `NUL` for each newline. -/
def blanked (cs : Str) : Str := cs.map fun c => if c = 10 then 0 else c

/-- What `ece391_strcpy` leaves at the front of the array of the last line `l` of the bytes `cs`.  It
stops at the first `NUL`; behind that stands what was there, with a `NUL` for each newline. -/
def kept (cs l : Str) : Str :=
  (cstr l ++ 0 :: (blanked cs).drop (strlen l + 1)).take l.length

/-- The lines that are searched, with the bytes `carry` in the array and `rest` in the file. -/
def searched (carry rest : Str) : List Str := CutLines.pieces kept 1024 10 carry rest

/-- What is printed for a line. -/
def report (s fname line : Str) : Str :=
  if s <:+: line then fname ++ text ":" ++ cstr line ++ text "\n" else []

/-- What is printed from then on. -/
def reports (s fname carry rest : Str) : Str := (searched carry rest).flatMap (report s fname)

/-- What is printed for the bytes `cs` in the array, and for `rest` behind them. -/
def windowReports (s fname cs rest : Str) : Str :=
  if 10 ∈ cs then
    (CutLines.ended 10 cs).flatMap (report s fname) ++
      reports s fname (kept cs (CutLines.unended 10 cs)) rest
  else report s fname cs ++ reports s fname [] rest

section Texts

variable {s fname l cs carry chunk rest : Str}

/-- A line without a `NUL` is moved as it is. -/
lemma kept_of_notMem (hl : 0 ∉ l) : kept cs l = l := by
  rw [kept, cstr_eq_self hl]
  exact List.take_left

lemma length_kept (h : l.length ≤ cs.length) : (kept cs l).length = l.length := by
  have hle : (cstr l).length ≤ l.length := strlen_le_length l
  rw [kept, blanked, List.length_take, List.length_append, List.length_cons, List.length_drop,
    List.length_map, strlen, ← cstr]
  omega

lemma newline_notMem_blanked (cs : Str) : 10 ∉ blanked cs := by
  intro h
  obtain ⟨c, -, hc⟩ := List.mem_map.1 h
  split at hc
  · exact absurd hc (by decide)
  · rename_i hne
    exact hne hc

lemma blanked_append (l cs : Str) : blanked (l ++ cs) = blanked l ++ blanked cs := List.map_append

lemma blanked_of_notMem (hl : 10 ∉ l) : blanked l = l := by
  refine (List.map_congr_left fun c hc => if_neg ?_).trans (List.map_id' l)
  rintro rfl
  exact hl hc

/-- No newline is left in the array. -/
lemma newline_notMem_moved (hl : 10 ∉ l) :
    10 ∉ cstr l ++ 0 :: (blanked cs).drop (strlen l + 1) := by
  rw [List.mem_append, List.mem_cons, not_or, not_or]
  exact ⟨fun h => hl ((List.takeWhile_prefix _).subset h), by decide,
    fun h => newline_notMem_blanked cs (List.mem_of_mem_drop h)⟩

/-- An empty line holds no string. -/
lemma report_nil (hne : s ≠ []) (fname : Str) : report s fname [] = [] :=
  if_neg fun h => hne (List.eq_nil_of_infix_nil h)

/-- The end of the file. -/
lemma reports_nil (s fname carry : Str) : reports s fname carry [] = report s fname carry := by
  rw [reports, searched, CutLines.pieces_nil, List.flatMap_singleton]

/-- The next bytes in the array; at the end of the file there are none. -/
lemma reports_append (hne : s ≠ []) (hcarry : 10 ∉ carry) (hlt : carry.length < 1024)
    (h : carry.length + chunk.length = 1024 ∨ carry.length + chunk.length ≤ 1024 ∧ rest = []) :
    reports s fname carry (chunk ++ rest) = windowReports s fname (carry ++ chunk) rest := by
  rw [windowReports]
  by_cases hnil : chunk ++ rest = []
  · obtain ⟨rfl, rfl⟩ := List.append_eq_nil_iff.1 hnil
    rw [List.append_nil carry, if_neg hcarry, List.append_nil, reports_nil, reports_nil,
      report_nil hne, List.append_nil]
  · rw [reports, searched, CutLines.pieces_append hnil hlt h]
    split
    · rw [List.flatMap_append]
      rfl
    · rw [List.flatMap_cons]
      rfl

/-- **A file without a `NUL`** is searched line by line, cut at the length of the array. -/
lemma reports_of_notMem (hne : s ≠ []) (hcs : 0 ∉ cs) :
    reports s fname [] cs = (CutLines.lines 1024 10 cs).flatMap (report s fname) := by
  have hlines : (CutLines.pieces kept 1024 10 [] cs).filter (· ≠ []) =
      CutLines.lines 1024 10 ([] ++ cs) :=
    CutLines.pieces_of_keep (p := (· ≠ 0)) (fun w l hl => kept_of_notMem fun h0 => hl 0 h0 rfl)
      (fun x hx h0 => hcs (h0 ▸ hx)) List.not_mem_nil (by decide)
  rw [List.nil_append] at hlines
  rw [reports, searched, ← hlines]
  -- nothing is printed for the empty pieces
  generalize CutLines.pieces kept 1024 10 [] cs = pieces
  induction pieces with
  | nil => rfl
  | cons piece pieces ih =>
    rw [List.flatMap_cons, ih, List.filter_cons]
    by_cases hnil : piece = []
    · rw [hnil, report_nil hne]
      rfl
    · rw [if_pos (decide_eq_true hnil), List.flatMap_cons]

end Texts

/-! ### Searching a line -/

section Searching

variable {img : Image} {o : Own} {data : Buf} {lineStart : ℕ} {s fname l : Str}

/-- The end of the last line is the end of the text. -/
lemma lineEndFrom_last (h : HoldsAt data lineStart l) (hl : 10 ∉ l) :
    lineEndFrom data l.length lineStart = lineStart + l.length := by
  induction l generalizing lineStart with
  | nil => rfl
  | cons x l ih =>
    obtain ⟨hx, hrest⟩ := holdsAt_cons.1 h
    rw [List.mem_cons, not_or] at hl
    rw [List.length_cons, lineEndFrom, hx, if_pos (Ne.symm hl.1), ih hrest hl.2]
    omega

/-- The end of another line is its newline. -/
lemma lineEndFrom_line {t : Str} (h : HoldsAt data lineStart (l ++ 10 :: t)) (hl : 10 ∉ l) :
    lineEndFrom data (l ++ 10 :: t).length lineStart = lineStart + l.length := by
  induction l generalizing lineStart with
  | nil =>
    obtain ⟨hx, -⟩ := holdsAt_cons.1 h
    rw [List.nil_append, List.length_cons, lineEndFrom, hx, if_neg (not_not.2 rfl)]
    rfl
  | cons x l ih =>
    obtain ⟨hx, hrest⟩ := holdsAt_cons.1 h
    rw [List.mem_cons, not_or] at hl
    rw [List.cons_append, List.length_cons, lineEndFrom, hx, if_pos (Ne.symm hl.1), ih hrest hl.2,
      List.length_cons]
    omega

/-- The test at a position of the line: the string begins there. -/
lemma check_iff {x : UInt8} (h : HoldsAt data lineStart (x :: l))
    (hend : data (lineStart + (x :: l).length) = 0) (hs : 0 ∉ s) (hne : s ≠ []) :
    (s.byteAt 0 = data lineStart ∧
      ece391Strncmp (fun j => data (lineStart + j)) s.byteAt (strlen s) = 0) ↔ s <+: x :: l := by
  have hlen : strlen s = s.length := congrArg List.length (cstr_eq_self hs)
  have hpos := List.length_pos_iff.2 hne
  have hx : data lineStart = x := (holdsAt_cons.1 h).1
  have hshift : HoldsAt (fun j => data (lineStart + j)) 0 s ↔ HoldsAt data lineStart s := by
    simp only [HoldsAt, Nat.zero_add]
  rw [hlen, ece391Strncmp_eq_zero hs, hshift, hx]
  constructor
  · rintro ⟨-, hholds⟩
    -- the string cannot run over the `NUL` behind the line
    have hle : s.length ≤ (x :: l).length := by
      by_contra hlt
      have hbyte := hholds (x :: l).length (not_le.1 hlt)
      rw [hend] at hbyte
      exact hs (hbyte ▸ byteAt_mem (not_le.1 hlt))
    rw [List.prefix_iff_eq_take]
    refine List.ext_getElem (by rw [List.length_take, Nat.min_eq_left hle]) fun j hj hj' => ?_
    have hj2 : j < (x :: l).length := by omega
    have hbyte := hholds j hj
    rw [h j hj2] at hbyte
    rw [List.getElem_take]
    rw [Str.byteAt, Str.byteAt, List.getD_eq_getElem _ _ hj, List.getD_eq_getElem _ _ hj2] at hbyte
    exact hbyte.symm
  · rintro ⟨t, ht⟩
    rw [← ht, holdsAt_append] at h
    refine ⟨?_, h.1⟩
    rw [← hx, ← h.1 0 hpos]
    rfl

/-- The loop over a line finds the strings that are in it, also behind a `NUL`. -/
lemma foundFrom_iff (h : HoldsAt data lineStart l) (hend : data (lineStart + l.length) = 0)
    (hs : 0 ∉ s) (hne : s ≠ []) : foundFrom s data l.length lineStart = true ↔ s <:+: l := by
  induction l generalizing lineStart with
  | nil => exact iff_of_false Bool.false_ne_true fun h => hne (List.eq_nil_of_infix_nil h)
  | cons x l ih =>
    have hcheck := check_iff h hend hs hne
    obtain ⟨-, hrest⟩ := holdsAt_cons.1 h
    rw [List.length_cons] at hend
    have hend' : data (lineStart + 1 + l.length) = 0 := by
      rw [Nat.add_assoc, Nat.add_comm 1]
      exact hend
    rw [List.length_cons, foundFrom, List.infix_cons_iff]
    by_cases hfirst : s <+: x :: l
    · rw [if_pos (hcheck.2 hfirst)]
      exact iff_of_true rfl (Or.inl hfirst)
    · rw [if_neg (mt hcheck.1 hfirst), ih hrest hend']
      exact (or_iff_right hfirst).symm

/-- **A line is searched**, and printed up to its first `NUL`. -/
lemma does_searchLine {Q : Unit → Own → Prop} {lineEnd : ℕ} (hlen : lineStart + l.length = lineEnd)
    (hout : o.Stdout) (hs : 0 ∉ s) (hne : s ≠ []) (hf : 0 ∉ fname) (hflen : fname.length < 2 ^ 31)
    (h : HoldsAt data lineStart l) (hend : data lineEnd = 0) (hlt : lineEnd < 1025)
    (h8 : 8 ∉ report s fname l) (hQ : Q () (o.print (report s fname l))) :
    Does img (searchLine s fname data lineStart lineEnd) Q o := by
  subst hlen
  rw [searchLine, Nat.add_sub_cancel_left]
  have hfound := foundFrom_iff h hend hs hne
  by_cases hmatch : s <:+: l
  · rw [if_pos (hfound.2 hmatch)]
    rw [report, if_pos hmatch] at hQ h8
    simp only [List.mem_append, not_or] at h8
    obtain ⟨⟨⟨hname, -⟩, hline⟩, -⟩ := h8
    have hself : cstr (cstr l) = cstr l := cstr_eq_self fun h0 => cstr_ne_zero h0 rfl
    have hle : (cstr l).length ≤ l.length := strlen_le_length l
    rw [strAt_eq_cstr h hend hlt]
    refine Program.wp_bind (does_fdputs hout hflen ((cstr_eq_self hf).symm ▸ hname) ?_)
    refine Program.wp_bind (does_fdputs (hout.print _) (by decide) (by decide) ?_)
    refine Program.wp_bind (does_fdputs ((hout.print _).print _) (by omega)
      (hself.symm ▸ hline) ?_)
    refine Program.wp_bind (does_fdputs (((hout.print _).print _).print _) (by decide)
      (by decide) ?_)
    have hcolon : cstr (text ":") = text ":" := by decide
    have hnewline : cstr (text "\n") = text "\n" := by decide
    rw [cstr_eq_self hf, hself, hcolon, hnewline, print_print, print_print, print_print]
    simp only [List.append_assoc] at hQ ⊢
    exact hQ
  · rw [if_neg (mt hfound.1 hmatch)]
    rw [report, if_neg hmatch, print_nil] at hQ
    exact hQ

end Searching

/-! ### The lines in the array -/

/-- The array holds the beginning of a line at its front. -/
structure Carries (data : Buf) (carry : Str) : Prop where
  holds : HoldsAt data 0 carry
  short : carry.length < 1024
  unfinished : 10 ∉ carry

/-- The byte behind the bytes `cs` in the array is no newline; behind the last bytes of a file it may
be one, where no line with a `NUL` would be moved. -/
def Unmarked (data : Buf) (cs rest : Str) : Prop :=
  data cs.length ≠ 10 ∨ rest = [] ∧ (0 ∈ cs → 10 ∉ cs)

/-- The state of the inner loop at the bytes `left` of the bytes `cs` in the array, after the lines
`found` were searched. -/
structure AtLine (s fname cs rest : Str) (o : Own) (l : Buf × ℕ) (left : Str) (found : List Str)
    (o' : Own) : Prop where
  place : ∃ front, cs = front ++ left ∧ l.2 = front.length ∧ HoldsAt l.1 0 (blanked front)
  holds : HoldsAt l.1 l.2 left
  started : l.2 ≠ 0 → 10 ∈ cs
  ended : CutLines.ended 10 cs = found ++ CutLines.ended 10 left
  unended : CutLines.unended 10 cs = CutLines.unended 10 left
  unmarked : Unmarked l.1 cs rest
  state : o' = o.print (found.flatMap (report s fname))

/-- How the inner loop ends: the array holds `carry`, and no newlines, so that nothing in it is taken
for one later. -/
def EndsLines (s fname cs rest : Str) (cnt : Int32) (o : Own) (r : Buf × ℕ) (o' : Own) : Prop :=
  ∃ carry out, r.2 = carry.length ∧ Carries r.1 carry ∧ (cnt = 0 → carry = []) ∧
    (rest ≠ [] → ∀ k ≤ cs.length, r.1 k ≠ 10) ∧
    o' = o.print out ∧ out ++ reports s fname carry rest = windowReports s fname cs rest

section Lines

variable {img : Image} {o o' : Own} {data : Buf} {lineStart : ℕ} {cnt : Int32}
  {s fname cs rest left : Str} {found : List Str}

lemma carries_nil (data : Buf) : Carries data [] :=
  ⟨fun j hj => absurd hj (Nat.not_lt_zero j), by decide, List.not_mem_nil⟩

/-- The `NUL` at the end of a line is no newline. -/
lemma Unmarked.update (h : Unmarked data cs rest) (k : ℕ) :
    Unmarked (Function.update data k 0) cs rest := by
  rcases h with h | h
  · refine Or.inl ?_
    by_cases hk : cs.length = k
    · subst hk
      rw [Function.update_self]
      decide
    · rwa [Function.update_of_ne hk]
  · exact Or.inr h

/-- At the end of the array every newline in it was replaced. -/
lemma AtLine.blanked (h : AtLine s fname cs rest o (data, lineStart) left found o')
    (hl : 10 ∉ left) : HoldsAt data 0 (blanked cs) := by
  obtain ⟨front, rfl, hstart, hfront⟩ := h.place
  have hholds := h.holds
  dsimp only at hstart hfront hholds
  rw [blanked_append, blanked_of_notMem hl, holdsAt_append]
  refine ⟨hfront, ?_⟩
  rw [Nat.zero_add, Userland.blanked, List.length_map, ← hstart]
  exact hholds

/-- The beginning of a line is moved to the front. -/
lemma carries_moved (h : HoldsAt data lineStart left) (hblanked : HoldsAt data 0 (blanked cs))
    (hl : 10 ∉ left) (hpos : lineStart ≠ 0) (hsize : lineStart + left.length = cs.length)
    (hle : cs.length ≤ 1024) :
    ∃ data', ece391Strcpy (1025 - lineStart) 0 lineStart (Function.update data cs.length 0) = data' ∧
      Carries data' (kept cs left) ∧ ∀ k ≤ cs.length, data' k ≠ 10 := by
  refine ⟨_, rfl, ?_⟩
  have hlen : (blanked cs).length = cs.length := List.length_map ..
  have hz : (cstr left).length ≤ left.length := strlen_le_length left
  have hstore : HoldsAt (Function.update data cs.length 0) lineStart left :=
    h.update (Or.inr hsize.le) 0
  have hnul : Function.update data cs.length 0 (lineStart + left.length) = 0 := by
    rw [hsize, Function.update_self]
  obtain ⟨hstr, hend⟩ := hstore.cstr hnul
  obtain ⟨hmoved, hsame⟩ := ece391Strcpy_spec hstr (fun h0 => cstr_ne_zero h0 rfl) hend
    (Nat.pos_of_ne_zero hpos) (show (cstr left).length < 1025 - lineStart by omega)
  generalize ece391Strcpy (1025 - lineStart) 0 lineStart _ = data' at hmoved hsame
  -- behind the string stands what was there
  have hdrop : HoldsAt data' (0 + strlen left + 1) ((blanked cs).drop (strlen left + 1)) := by
    rw [Nat.add_assoc]
    refine (hblanked.drop (strlen left + 1)).congr fun j hj => ?_
    rw [List.length_drop] at hj
    rw [hsame _ (Or.inr (by rw [strlen, ← cstr]; omega)), Function.update_of_ne (by omega)]
  have hall : HoldsAt data' 0 (cstr left ++ 0 :: (blanked cs).drop (strlen left + 1)) := by
    rw [List.append_cons, holdsAt_append]
    refine ⟨hmoved, ?_⟩
    rw [List.length_append, ← Nat.add_assoc]
    exact hdrop
  have hnone : 10 ∉ cstr left ++ 0 :: (blanked cs).drop (strlen left + 1) := newline_notMem_moved hl
  have hshort : left.length < cs.length := by omega
  refine ⟨⟨hall.take _, ?_, fun h => hnone (List.mem_of_mem_take h)⟩, fun k hk => ?_⟩
  · rw [length_kept hshort.le]
    omega
  · by_cases hlast : k = cs.length
    · subst hlast
      rw [hsame _ (Or.inr (by omega)), Function.update_self]
      decide
    · refine hall.ne hnone (Nat.zero_le k) ?_
      rw [List.length_append, List.length_cons, List.length_drop, strlen, ← cstr]
      omega

section

variable (hout : o.Stdout) (hs : 0 ∉ s) (hne : s ≠ []) (hf : 0 ∉ fname)
  (hflen : fname.length < 2 ^ 31) (hle : cs.length ≤ 1024)
  (h8 : 8 ∉ windowReports s fname cs rest)
include hout hs hne hf hflen hle h8

/-- The turn of the inner loop that comes to the end of the array. -/
lemma does_lastLine (hfinal : cnt = 0 → 10 ∉ cs)
    (h : AtLine s fname cs rest o (data, lineStart) left found o') (hl : 10 ∉ left) :
    Does img (lineTurn s fname cnt cs.length (data, lineStart)) (fun r t =>
      match r with
      | .inl _ => False
      | .inr r => EndsLines s fname cs rest cnt o r t) o' := by
  have hblanked := h.blanked hl
  obtain ⟨⟨front, hcs, hstart, -⟩, hholds, hstarted, hended, hunended, hunmarked, rfl⟩ := h
  dsimp only at hstart hholds hstarted hunmarked
  rw [CutLines.ended_of_notMem hl, List.append_nil] at hended
  rw [CutLines.unended_of_notMem hl] at hunended
  have hsize : lineStart + left.length = cs.length := by
    rw [hcs, List.length_append, hstart]
  have hlen : cs.length - lineStart = left.length := by omega
  rw [lineTurn]
  dsimp only
  rw [hlen, lineEndFrom_last hholds hl, hsize]
  by_cases hcarry : data cs.length ≠ 10 ∧ cnt ≠ 0 ∧ lineStart ≠ 0
  · rw [if_pos hcarry]
    obtain ⟨data', hdata', hcarries, hquiet⟩ :=
      carries_moved hholds hblanked hl hcarry.2.2 hsize hle
    rw [hdata', ← hended]
    refine ⟨kept cs left, _, (length_kept (by omega)).symm, hcarries,
      fun h0 => absurd h0 hcarry.2.1, fun _ => hquiet, rfl, ?_⟩
    rw [windowReports, if_pos (hstarted hcarry.2.2), hunended]
  · rw [if_neg hcarry]
    -- the line is all that is in the array, or the last one of a file without a `NUL`
    have htotal : windowReports s fname cs rest =
        found.flatMap (report s fname) ++ report s fname left ++ reports s fname [] rest := by
      by_cases hpos : lineStart = 0
      · have hnil : front = [] := List.length_eq_zero_iff.1 (hstart.symm.trans hpos)
        rw [hnil, List.nil_append] at hcs
        subst hcs
        rw [CutLines.ended_of_notMem hl] at hended
        rw [windowReports, if_neg hl, ← hended]
        rfl
      · have hmem := hstarted hpos
        have hcnt : cnt ≠ 0 := fun h0 => hfinal h0 hmem
        obtain ⟨rfl, h0⟩ := hunmarked.resolve_left fun hdata => hcarry ⟨hdata, hcnt, hpos⟩
        have hleft : 0 ∉ left := fun h => h0 (hcs ▸ List.mem_append_right front h) hmem
        rw [windowReports, if_pos hmem, hunended, kept_of_notMem hleft, hended, reports_nil,
          reports_nil, report_nil hne, List.append_nil]
    rw [htotal, List.mem_append, List.mem_append, not_or, not_or] at h8
    refine Program.wp_bind (does_searchLine (l := left) hsize (hout.print _) hs hne hf hflen
      (hholds.update (Or.inr hsize.le) 0) (Function.update_self ..) (by omega) h8.1.2 ?_)
    rw [if_pos (Nat.le_succ _), print_print]
    refine ⟨[], _, rfl, carries_nil _, fun _ => rfl, fun _ k hk => ?_, rfl, htotal.symm⟩
    change Function.update data cs.length 0 k ≠ 10
    by_cases hlast : k = cs.length
    · subst hlast
      rw [Function.update_self]
      decide
    · rw [Function.update_of_ne hlast]
      refine hblanked.ne (newline_notMem_blanked cs) (Nat.zero_le k) ?_
      rw [Userland.blanked, List.length_map]
      omega

/-- A turn of the inner loop at a whole line. -/
lemma does_wholeLine {l t : Str}
    (h : AtLine s fname cs rest o (data, lineStart) (l ++ 10 :: t) found o') (hl : 10 ∉ l) :
    Does img (lineTurn s fname cnt cs.length (data, lineStart)) (fun r o'' =>
      match r with
      | .inl r => ∃ found', AtLine s fname cs rest o r t found' o''
      | .inr r => EndsLines s fname cs rest cnt o r o'') o' := by
  obtain ⟨⟨front, hcs, hstart, hfront⟩, hholds, -, hended, hunended, hunmarked, rfl⟩ := h
  dsimp only at hstart hfront hholds hunmarked
  have hmem : 10 ∈ cs := by
    rw [hcs]
    exact List.mem_append_right front (List.mem_append_right l (List.mem_cons_self ..))
  have hsize : lineStart + (l ++ 10 :: t).length = cs.length := by
    rw [hcs, hstart]
    exact (List.length_append ..).symm
  have hlen : cs.length - lineStart = (l ++ 10 :: t).length := by omega
  rw [CutLines.ended_append_sep hl] at hended
  rw [CutLines.unended_append_sep hl] at hunended
  obtain ⟨hline, hnext⟩ := holdsAt_append.1 hholds
  obtain ⟨hnewline, hnext⟩ := holdsAt_cons.1 hnext
  rw [List.length_append, List.length_cons] at hsize
  have h8l : 8 ∉ report s fname l := by
    rw [windowReports, if_pos hmem, hended] at h8
    simp only [List.flatMap_append, List.flatMap_cons, List.mem_append, not_or] at h8
    exact h8.1.2.1
  rw [lineTurn]
  dsimp only
  rw [hlen, lineEndFrom_line hholds hl, if_neg fun h => h.1 hnewline]
  refine Program.wp_bind (does_searchLine rfl (hout.print _) hs hne hf hflen
    (hline.update (Or.inr le_rfl) 0) (Function.update_self ..) (by omega) h8l ?_)
  have hstate : (o.print (found.flatMap (report s fname))).print (report s fname l) =
      o.print ((found ++ [l]).flatMap (report s fname)) := by
    rw [print_print, List.flatMap_append, List.flatMap_singleton]
  have hended' : CutLines.ended 10 cs = (found ++ [l]) ++ CutLines.ended 10 t := by
    rw [hended, List.append_assoc]
    rfl
  -- the line with its newline, as a part of the array
  have hplace : HoldsAt (Function.update data (lineStart + l.length) 0) 0
      (blanked (front ++ (l ++ [10]))) := by
    rw [blanked_append, blanked_append, blanked_of_notMem hl, holdsAt_append, holdsAt_append]
    have hfl : 0 + (blanked front).length = lineStart := by
      rw [Nat.zero_add, Userland.blanked, List.length_map, hstart]
    rw [hfl]
    refine ⟨hfront.update (Or.inr (by omega)) 0, hline.update (Or.inr le_rfl) 0, ?_⟩
    exact holdsAt_cons.2 ⟨Function.update_self .., fun j hj => absurd hj (Nat.not_lt_zero j)⟩
  have hcs' : cs = (front ++ (l ++ [10])) ++ t := by
    rw [hcs, List.append_assoc, List.append_assoc]
    rfl
  by_cases ht : t = []
  · subst ht
    rw [List.length_nil] at hsize
    rw [if_pos (by omega), hstate]
    rw [List.append_nil] at hcs'
    rw [← hcs'] at hplace
    refine ⟨[], _, rfl, carries_nil _, fun _ => rfl, fun hrest k hk => ?_, rfl, ?_⟩
    · by_cases hlast : k = cs.length
      · subst hlast
        exact (hunmarked.update _).resolve_right fun h => hrest h.1
      · refine hplace.ne (newline_notMem_blanked cs) (Nat.zero_le k) ?_
        rw [Userland.blanked, List.length_map]
        omega
    · rw [CutLines.ended_of_notMem List.not_mem_nil, List.append_nil] at hended'
      rw [windowReports, if_pos hmem, hunended, CutLines.unended_of_notMem List.not_mem_nil,
        kept_of_notMem List.not_mem_nil, hended']
  · have hpos := List.length_pos_iff.2 ht
    rw [if_neg (by omega), hstate]
    refine ⟨found ++ [l], ⟨_, hcs', ?_, hplace⟩, ?_, fun _ => hmem, hended', hunended,
      hunmarked.update _, rfl⟩
    · rw [List.length_append, List.length_append, ← hstart, List.length_singleton, Nat.add_assoc]
    · exact hnext.update (Or.inl (Nat.lt_succ_self _)) 0

/-- **The lines in the array** are searched, and the beginning of another one stays. -/
lemma does_lineLoop (hfinal : cnt = 0 → 10 ∉ cs) (hholds : HoldsAt data 0 cs)
    (hunmarked : Unmarked data cs rest) {turns : ℕ} (hturns : cs.length < turns) :
    Does img (Program.loop (lineTurn s fname cnt cs.length) turns (data, 0))
      (EndsLines s fname cs rest cnt o) o := by
  refine Program.wp_loop (fun m l o' => ∃ left found, left.length = m ∧
      AtLine s fname cs rest o l left found o') ?_ hturns
    ⟨cs, [], rfl, ⟨[], rfl, rfl, fun j hj => absurd hj (Nat.not_lt_zero j)⟩, hholds,
      fun h => absurd rfl h, rfl, rfl, hunmarked, (print_nil o).symm⟩
  rintro m ⟨data, lineStart⟩ o' ⟨left, found, hm, h⟩
  by_cases hl : 10 ∈ left
  · obtain ⟨l, t, rfl, hl'⟩ := List.eq_append_cons_of_mem hl
    refine Program.wp_mono (fun r o'' hr => ?_)
      (does_wholeLine hout hs hne hf hflen hle h8 h hl')
    cases r with
    | inl r =>
      obtain ⟨found', hr⟩ := hr
      refine ⟨t.length, ?_, t, found', rfl, hr⟩
      rw [← hm, List.length_append, List.length_cons]
      omega
    | inr r => exact hr
  · refine Program.wp_mono (fun r o'' hr => ?_)
      (does_lastLine hout hs hne hf hflen hle h8 hfinal h hl)
    cases r with
    | inl r => exact hr.elim
    | inr r => exact hr

end

end Lines

/-! ### A file -/

/-- No newline stands behind the bytes that the next read leaves in the array; it may, where these are
the last ones and no line with a `NUL` would be moved. -/
def Quiet (data : Buf) (carry left : Str) : Prop :=
  left ≠ [] → data (min 1024 (carry.length + left.length)) ≠ 10 ∨
    carry.length + left.length ≤ 1024 ∧ (0 ∈ carry ++ left → 10 ∉ carry ++ left)

/-- The state of the outer loop with the bytes `left` in the file, after `out` was printed. -/
structure AtPiece (img : Image) (s fname cs : Str) (fd : Int32) (o : Own) (l : Buf × ℕ)
    (left out : Str) (o' : Own) : Prop where
  delivers : Delivers img o' fd left
  carries : ∃ carry, l.2 = carry.length ∧ Carries l.1 carry ∧ Quiet l.1 carry left ∧
    out ++ reports s fname carry left = reports s fname [] cs
  frame : ∀ k, k ≠ fdIndex fd → o'.fds k = o.fds k
  printed : o'.printed = o.printed ++ out

/-- How the outer loop ends. -/
structure EndsFile (s fname cs : Str) (fd : Int32) (o : Own) (ret : Int32) (o' : Own) : Prop where
  ret : ret = 0
  opened : ∃ driver, OpenWith o' fd driver
  frame : ∀ k, k ≠ fdIndex fd → o'.fds k = o.fds k
  printed : o'.printed = o.printed ++ reports s fname [] cs

section Files

variable {img : Image} {o o' : Own} {fd : Int32} {s fname cs left out : Str}

/-- The array after a read behind its first bytes. -/
lemma holdsAt_read {data : Buf} {carry : Str} (h : HoldsAt data 0 carry) (chunk : Str) :
    HoldsAt (fun i => if i < carry.length then data i
      else store (fun j => data (carry.length + j)) chunk (i - carry.length)) 0 (carry ++ chunk) := by
  refine holdsAt_append.2 ⟨fun j hj => ?_, fun j hj => ?_⟩
  · dsimp only
    rw [Nat.zero_add, if_pos hj]
    have hbyte := h j hj
    rwa [Nat.zero_add] at hbyte
  · dsimp only
    rw [Nat.zero_add, if_neg (by omega), Nat.add_sub_cancel_left]
    exact if_pos hj

/-- A read of `n` bytes takes a piece off the text: `n` bytes, or all that is left. -/
lemma Delivers.piece (h : Delivers img o fd left) {n : ℕ} (h0 : 0 < n) (hn : n < 2 ^ 31)
    (buf : Buf) :
    ∃ chunk rest, left = chunk ++ rest ∧ chunk.length ≤ n ∧ (chunk.length = n ∨ rest = []) ∧
      o.serve img (.read fd buf (Int32.ofNat n)) =
        some ((Int32.ofNat chunk.length, store buf chunk), o.advance fd chunk.length) ∧
      Delivers img (o.advance fd chunk.length) fd rest := by
  have htoInt : (Int32.ofNat n).toInt = n := toInt_ofNat hn
  have hpos : 0 < Int32.ofNat n :=
    Int32.lt_iff_toInt_lt.2 (by rw [htoInt, Int32.toInt_zero]; omega)
  obtain ⟨hread, hnext⟩ := h.read hpos buf
  rw [htoInt, Int.toNat_natCast] at hread hnext
  have hlen : (left.take n).length = min n left.length := List.length_take
  refine ⟨left.take n, left.drop (left.take n).length, (take_append_drop_length n left).symm,
    by omega, ?_, hread, hnext⟩
  rcases Nat.le_total n left.length with hle | hle
  · exact Or.inl (by omega)
  · exact Or.inr (List.drop_of_length_le (by omega))

/-- The read fills the array, or nothing is left in the file. -/
def Filled (carry chunk rest : Str) : Prop :=
  carry.length + chunk.length = 1024 ∨ carry.length + chunk.length ≤ 1024 ∧ rest = []

/-- The byte behind a piece that was read. -/
lemma Quiet.unmarked {data : Buf} {carry chunk rest : Str} (h : Quiet data carry (chunk ++ rest))
    (hcarry : 10 ∉ carry) (hfill : Filled carry chunk rest) :
    Unmarked (fun i => if i < carry.length then data i
      else store (fun j => data (carry.length + j)) chunk (i - carry.length)) (carry ++ chunk)
      rest := by
  rw [Unmarked, List.length_append, if_neg (by omega), Nat.add_sub_cancel_left, store, memcpy,
    if_neg (lt_irrefl _)]
  by_cases hnil : chunk ++ rest = []
  · obtain ⟨rfl, rfl⟩ := List.append_eq_nil_iff.1 hnil
    rw [List.append_nil]
    exact Or.inr ⟨rfl, fun _ => hcarry⟩
  rcases h hnil with hdata | ⟨hle, hnul⟩
  · have hplace : min 1024 (carry.length + (chunk ++ rest).length) =
        carry.length + chunk.length := by
      rcases hfill with hfull | ⟨hle, rfl⟩
      · rw [List.length_append]
        omega
      · rw [List.append_nil]
        omega
    rw [hplace] at hdata
    exact Or.inl hdata
  · -- the piece is the last one
    have hrest : rest = [] := by
      rcases hfill with hfull | ⟨-, hrest⟩
      · rw [List.length_append] at hle
        exact List.length_eq_zero_iff.1 (by omega)
      · exact hrest
    rw [hrest, List.append_nil] at hnul
    exact Or.inr ⟨hrest, hnul⟩

section

variable (hout : o.Stdout) (hs : 0 ∉ s) (hne : s ≠ []) (hf : 0 ∉ fname)
  (hflen : fname.length < 2 ^ 31) (h8 : 8 ∉ reports s fname [] cs)
include hout hs hne hf hflen h8

/-- A turn of the outer loop. -/
lemma does_fileTurn {l : Buf × ℕ} {turns : ℕ} (hturns : 1024 < turns)
    (h : AtPiece img s fname cs fd o l left out o') :
    Does img (fileTurn turns s fname fd l) (fun r o'' =>
      match r with
      | .inl l' => ∃ left' out', left'.length < left.length ∧
          AtPiece img s fname cs fd o l' left' out' o''
      | .inr ret => EndsFile s fname cs fd o ret o'') o' := by
  obtain ⟨data, last⟩ := l
  obtain ⟨hdelivers, ⟨carry, hlast, hcarries, hquiet, hprinted⟩, hframe, ho'⟩ := h
  dsimp only at hlast hcarries hquiet
  subst hlast
  have hshort := hcarries.short
  obtain ⟨chunk, rest, rfl, hchunk, hrest, hread, hnext⟩ :=
    hdelivers.piece (n := 1024 - carry.length) (by omega) (by omega)
      fun i => data (carry.length + i)
  obtain ⟨driver, hopen⟩ := hdelivers.openWith
  have hcnt : (Int32.ofNat chunk.length).toInt = chunk.length := toInt_ofNat (by omega)
  have hneg : Int32.ofNat chunk.length ≠ -1 := ofNat_ne_neg_one (by omega)
  have hzero : Int32.ofNat chunk.length = 0 → chunk = [] := fun h =>
    List.length_eq_zero_iff.1 (eq_zero_of_ofNat (by omega) h)
  have hone : (o'.advance fd chunk.length).fds 1 = o'.fds 1 := hopen.advance_stdout _
  have hne1 : 1 ≠ fdIndex fd := by
    have h2 := fdIndex_ge hopen.range.1
    omega
  have hfill : Filled carry chunk rest := by
    rcases hrest with hfull | hrest
    · exact Or.inl (by omega)
    · exact Or.inr ⟨by omega, hrest⟩
  have hsize : (carry ++ chunk).length ≤ 1024 := by
    rw [List.length_append]
    omega
  -- what the bytes in the array print
  have hwindow : reports s fname carry (chunk ++ rest) =
      windowReports s fname (carry ++ chunk) rest :=
    reports_append hne hcarries.unfinished hshort hfill
  rw [hwindow] at hprinted
  have h8w : 8 ∉ windowReports s fname (carry ++ chunk) rest := fun hmem =>
    h8 (hprinted ▸ List.mem_append_right out hmem)
  have hend : Int32.ofNat chunk.length = 0 → rest = [] := by
    intro h0
    rcases hrest with hfull | hrest
    · rw [hzero h0, List.length_nil] at hfull
      omega
    · exact hrest
  have hfinal : Int32.ofNat chunk.length = 0 → 10 ∉ carry ++ chunk := by
    intro h0
    rw [hzero h0, List.append_nil]
    exact hcarries.unfinished
  rw [fileTurn]
  dsimp only
  refine Program.wp_bind (does_ask hread ?_)
  simp only [hneg, if_false, hcnt, Int.toNat_natCast]
  have hlines : Does img _ _ _ := does_lineLoop (hout.congr (hone.trans (hframe 1 hne1))) hs hne hf
    hflen hsize h8w hfinal (holdsAt_read hcarries.holds chunk)
    (hquiet.unmarked hcarries.unfinished hfill) (lt_of_le_of_lt hsize hturns)
  rw [List.length_append] at hlines
  refine Program.wp_bind (Program.wp_mono ?_ hlines)
  rintro ⟨data', last'⟩ o'' ⟨carry', out', rfl, hcarries', hcarry0, hquiet', rfl, hprinted'⟩
  have hframe' (k : ℕ) (hk : k ≠ fdIndex fd) :
      ((o'.advance fd chunk.length).print out').fds k = o.fds k :=
    (Function.update_of_ne hk ..).trans (hframe k hk)
  have htotal : out ++ out' ++ reports s fname carry' rest = reports s fname [] cs := by
    rw [List.append_assoc, hprinted', hprinted]
  have hout' : ((o'.advance fd chunk.length).print out').printed = o.printed ++ (out ++ out') := by
    rw [← List.append_assoc, ← ho']
    rfl
  dsimp only
  by_cases h0 : Int32.ofNat chunk.length = 0
  · rw [if_pos h0]
    refine ⟨rfl, ⟨driver, (hopen.advance _).print _⟩, hframe', ?_⟩
    rw [hout', ← htotal, hcarry0 h0, hend h0, reports_nil, report_nil hne, List.append_nil]
  · rw [if_neg h0]
    have hquiet'' : Quiet data' carry' rest := by
      intro hrest'
      refine Or.inl (hquiet' hrest' _ ?_)
      rcases hfill with hfull | ⟨-, hnil⟩
      · rw [List.length_append, hfull]
        exact Nat.min_le_left ..
      · exact absurd hnil hrest'
    refine ⟨rest, out ++ out', ?_, hnext.print _, ⟨carry', rfl, hcarries', hquiet'', htotal⟩,
      hframe', hout'⟩
    have hpos : 0 < chunk.length := by
      refine Nat.pos_of_ne_zero fun hz => h0 ?_
      rw [hz]
      rfl
    rw [List.length_append]
    omega

/-- **The loop of `do_one_file`** prints what it should for the file. -/
lemma does_fileLoop (h : Delivers img o fd cs) {data : Buf} (hquiet : Quiet data [] cs) {turns : ℕ}
    (hturns : cs.length + 1024 < turns) :
    Does img (Program.loop (fileTurn turns s fname fd) turns (data, 0))
      (EndsFile s fname cs fd o) o := by
  refine Program.wp_loop (fun m l o' => ∃ left out, left.length = m ∧
      AtPiece img s fname cs fd o l left out o') ?_ (show cs.length < turns by omega)
    ⟨cs, [], rfl, h, ⟨[], rfl, carries_nil data, hquiet, rfl⟩, fun _ _ => rfl,
      (List.append_nil _).symm⟩
  rintro m l o' ⟨left, out, rfl, hpiece⟩
  refine Program.wp_mono (fun r o'' hr => ?_)
    (does_fileTurn hout hs hne hf hflen h8 (show 1024 < turns by omega) hpiece)
  cases r with
  | inl l' =>
    obtain ⟨left', out', hlt, hr⟩ := hr
    exact ⟨left'.length, hlt, left', out', rfl, hr⟩
  | inr ret => exact hr

end

end Files

/-- An entry that can be searched: a file, or the RTC. -/
structure SearchOk (img : Image) (d : DirEntry) : Prop where
  entry : EntryOk img d
  kind : driverOf d.fileType ≠ some .dir

/-- The array as `do_one_file` finds it, for a file with the bytes `cs`: the byte behind the array is
no newline, and where a line with a `NUL` might be moved, neither is the byte behind the file. -/
structure Fresh (data : Buf) (cs : Str) : Prop where
  guard : data 1024 ≠ 10
  behind : cs.length < 1024 → 0 ∈ cs → 10 ∈ cs → data cs.length ≠ 10

section Search

variable {img : Image} {o : Own} {i : ℕ} {d : DirEntry} {s fname : Str}

lemma Fresh.quiet {data : Buf} {cs : Str} (h : Fresh data cs) : Quiet data [] cs := by
  intro _
  rw [List.length_nil, Nat.zero_add, List.nil_append]
  rcases Nat.lt_or_ge cs.length 1024 with hlt | hge
  · rw [Nat.min_eq_right hlt.le]
    by_cases h0 : 0 ∈ cs → 10 ∉ cs
    · exact Or.inr ⟨hlt.le, h0⟩
    · push Not at h0
      exact Or.inl (h.behind hlt h0.1 h0.2)
  · rw [Nat.min_eq_left hge]
    exact Or.inl h.guard

/-- An entry that was just opened delivers its text. -/
lemma Own.Room.delivers (h : o.Room i) (hok : SearchOk img d) {driver : Driver}
    (hd : driverOf d.fileType = some driver) :
    Delivers img (o.opened i d driver) (Int32.ofNat i) (entryText img d) := by
  rcases driverOf_cases hd with ⟨-, rfl⟩ | ⟨-, rfl⟩ | ⟨-, rfl⟩
  · refine Or.inr ⟨(h.openWith d .rtc).1, (by decide : (2 : Int32) ≠ 0), ?_⟩
    rw [entryText, hd]
  · exact absurd hd hok.kind
  · refine Or.inl ?_
    rw [entryText, hd]
    exact h.fileAt hok.entry hd

/-- `close` of an open descriptor. -/
lemma OpenWith.serve_close {fd : Int32} {driver : Driver} (h : OpenWith o fd driver) :
    o.serve img (.close fd) = some ((0, noBuf), { o with
      fds := Function.update o.fds (fdIndex fd) (closedEntry (o.fds (fdIndex fd))) }) := by
  have hok : ¬(fd < 2 ∨ fd ≥ 8 ∨ (o.fds (fdIndex fd)).flags = 0) := by
    rintro (h2 | h8 | h0)
    · exact Int32.not_lt.2 h.range.1 h2
    · exact Int32.not_lt.2 h8 h.range.2
    · exact h.flags h0
  rw [Own.serve, if_neg hok, h.ops]
  rfl

/-- **`do_one_file`** prints what it should for the file, and frees its descriptor. -/
lemma does_doOneFile (hroom : o.Room i) (hs : 0 ∉ s) (hne : s ≠ []) (hf : 0 ∉ fname)
    (hflen : fname.length < 2 ^ 31) (hname : readDentryByName img fname = some d)
    (hok : SearchOk img d) (h8 : 8 ∉ reports s fname [] (entryText img d)) {data : Buf}
    (hfresh : Fresh data (entryText img d)) {turns : ℕ}
    (hturns : (entryText img d).length + 1024 < turns) :
    Does img (doOneFile turns s fname data) (fun ret o' => ret = 0 ∧
      (∀ k, k ≠ i → o'.fds k = o.fds k) ∧ (o'.fds i).flags = 0 ∧
      o'.printed = o.printed ++ reports s fname [] (entryText img d)) o := by
  obtain ⟨driver, hd⟩ := Option.isSome_iff_exists.1 hok.entry.known
  obtain ⟨-, -, hindex⟩ := hroom.fd
  refine Program.wp_bind (does_returned (serve_opened hroom hname hd) ?_)
  simp only [hroom.fd_ne, if_false]
  refine Program.wp_bind (Program.wp_mono ?_ (does_fileLoop hroom.opened_stdout hs hne hf
    hflen h8 (hroom.delivers hok hd) hfresh.quiet hturns))
  rintro ret o' ⟨rfl, ⟨driver', hopen⟩, hframe, hprinted⟩
  rw [hindex] at hframe
  have hzero : (0 : Int32) ≠ -1 := by decide
  simp only [hzero, if_false]
  refine Program.wp_bind (does_returned hopen.serve_close ?_)
  simp only [hzero, if_false]
  refine ⟨rfl, fun k hk => ?_, ?_, hprinted⟩
  · dsimp only
    rw [hindex, Function.update_of_ne hk, hframe k hk]
    exact Function.update_of_ne hk ..
  · dsimp only
    rw [hindex, Function.update_self]
    rfl

end Search

/-! ### The directory -/

/-- The names of the directory lead to their entries. -/
structure DirOk (img : Image) : Prop where
  count : img.numDirEntries.toNat ≤ 63
  nonempty : ∀ e ∈ img.entries, e.name ≠ []
  distinct : ∀ i < img.numDirEntries.toNat, ∀ j < img.numDirEntries.toNat,
    (img.dirEntries i).name = (img.dirEntries j).name → i = j

/-- An entry that `main` passes over. -/
def hidden (e : DirEntry) : Prop := e.name.byteAt 0 = 46

instance (e : DirEntry) : Decidable (hidden e) := inferInstanceAs (Decidable (_ = _))

/-- What is printed for an entry. -/
def entryReports (img : Image) (s : Str) (e : DirEntry) : Str :=
  if hidden e then [] else reports s e.name [] (entryText img e)

section Directory

variable {img : Image} {o o' : Own} {i j : ℕ} {s : Str}

lemma DirEntry_name_nul (e : DirEntry) : 0 ∉ e.name :=
  fun h => by simpa using List.mem_takeWhile_imp h

lemma DirOk.lookup (h : DirOk img) {e : DirEntry} (he : e ∈ img.entries) :
    readDentryByName img e.name = some e := by
  obtain ⟨i, hi, rfl⟩ := List.mem_map.1 he
  have hi' := List.mem_range.1 hi
  have hcstr : cstr (img.dirEntries i).name = (img.dirEntries i).name :=
    cstr_eq_self (DirEntry_name_nul _)
  have hcount := h.count
  refine readDentryByName_of_first (by omega) hi' hcstr.symm fun j hj hname => ?_
  rw [hcstr] at hname
  exact absurd (h.distinct j (by omega) i hi' hname) (by omega)

/-- The search for a vacant entry looks at the flags only. -/
lemma vacantFrom_congr {fds fds' : FdArr} (h : ∀ k, (fds' k).flags = 0 ↔ (fds k).flags = 0)
    (n i : ℕ) : vacantFrom fds' n i = vacantFrom fds n i := by
  induction n generalizing i with
  | zero =>
    rw [vacantFrom, vacantFrom]
    exact if_congr (h i) rfl rfl
  | succ n ih =>
    rw [vacantFrom, vacantFrom, ih]
    exact if_congr (h i) rfl rfl

/-- The loop of `main` keeps room for one file. -/
lemma Own.Room.congr (h : o.Room j) (hflags : ∀ k, (o'.fds k).flags = 0 ↔ (o.fds k).flags = 0)
    (h1 : o'.fds 1 = o.fds 1) : o'.Room j :=
  ⟨mt (hflags 0).1 h.stdin, h.stdout.congr h1, (vacantFrom_congr hflags 7 0).trans h.vacant⟩

lemma Own.Room.vacant_flags (h : o.Room j) : (o.fds j).flags = 0 := by
  obtain ⟨-, -, hflags, -⟩ := (vacantFrom_spec _ 7 0).1 j h.vacant
  exact hflags

lemma Own.Room.advance (h : o.Room j) {fd : Int32} {driver : Driver} (hopen : OpenWith o fd driver)
    (n : ℕ) : (o.advance fd n).Room j := by
  refine h.congr (fun k => ?_) (hopen.advance_stdout n)
  by_cases hk : k = fdIndex fd
  · subst hk
    rw [Own.advance_self]
    rfl
  · rw [Own.advance]
    dsimp only
    rw [Function.update_of_ne hk]

/-- The directory, after calls on other descriptors. -/
lemma DirAt.congr {fd : Int32} {names : List Str} (h : DirAt img o fd names)
    (heq : o'.fds (fdIndex fd) = o.fds (fdIndex fd)) : DirAt img o' fd names := by
  refine ⟨⟨h.range, ?_, ?_⟩, ?_, ?_⟩
  · rw [heq]
    exact h.ops
  · rw [heq]
    exact h.flags
  · rw [heq]
    exact h.inside
  · rw [heq]
    exact h.rest

/-- **The loop of `main`** searches the files of the directory. -/
lemma does_grepLoop {fd : Int32} (hdir : DirOk img) (hs : 0 ∉ s) (hne : s ≠ [])
    (hok : ∀ e ∈ img.entries, ¬hidden e → SearchOk img e)
    (h8 : ∀ e ∈ img.entries, 8 ∉ entryReports img s e)
    {entries : List DirEntry} (hentries : ∀ e ∈ entries, e ∈ img.entries)
    (hat : DirAt img o fd (entries.map DirEntry.name)) (hroom : o.Room j)
    {fresh : ℕ → Buf} (hfresh : ∀ k, ∀ e ∈ img.entries, Fresh (fresh k) (entryText img e))
    {turns : ℕ} (hturns : entries.length < turns)
    (hlong : ∀ e ∈ img.entries, ¬hidden e → (entryText img e).length + 1024 < turns) (buf : Buf) :
    Does img (Program.loop (grepTurn turns s fd fresh) turns (buf, 0))
      (fun ret o' => ret = 0 ∧ o'.printed = o.printed ++ entries.flatMap (entryReports img s)) o := by
  refine Program.wp_loop (fun m _ o' => ∃ left out, left.length = m ∧
      (∀ e ∈ left, e ∈ img.entries) ∧ DirAt img o' fd (left.map DirEntry.name) ∧ o'.Room j ∧
      o'.printed = o.printed ++ out ∧
      out ++ left.flatMap (entryReports img s) = entries.flatMap (entryReports img s)) ?_ hturns
    ⟨entries, [], rfl, hentries, hat, hroom, (List.append_nil _).symm, rfl⟩
  rintro m ⟨buf, k⟩ o' ⟨left, out, rfl, hmem, hat, hroom, hprinted, htotal⟩
  rw [grepTurn]
  dsimp only
  cases left with
  | nil =>
    refine Program.wp_bind (does_ask (hat.read_nil (by decide) buf) ⟨rfl, ?_⟩)
    rw [hprinted, ← htotal]
    simp
  | cons e left =>
    have he := hmem e (List.mem_cons_self ..)
    have hname := hdir.nonempty e he
    have hlen : e.name.length ≤ 32 := e.length_name_le
    obtain ⟨hread, hnext, -⟩ := hat.read_cons (by decide : 0 ≤ (32 : Int32)) buf
    obtain ⟨h0, h1, -, hcnt⟩ := ofNat_length hname (by omega)
    have hroom' := hroom.advance hat.toOpenWith 1
    have hmem' (e' : DirEntry) (h : e' ∈ left) := hmem e' (List.mem_cons_of_mem _ h)
    have hfirst : store buf e.name 0 = e.name.byteAt 0 := if_pos (List.length_pos_iff.2 hname)
    rw [List.flatMap_cons] at htotal
    refine Program.wp_bind (does_ask hread ?_)
    simp only [h0, h1, if_false, hfirst, hcnt]
    by_cases hhidden : hidden e
    · rw [if_pos (show e.name.byteAt 0 = 46 from hhidden)]
      rw [entryReports, if_pos hhidden, List.nil_append] at htotal
      exact ⟨left.length, Nat.lt_succ_self _, left, out, rfl, hmem', hnext, hroom', hprinted,
        htotal⟩
    rw [if_neg (show ¬e.name.byteAt 0 = 46 from hhidden)]
    have h8e := h8 e he
    rw [entryReports, if_neg hhidden] at h8e
    have hstr : strAt (Function.update (store buf e.name) e.name.length 0) 33 0 = e.name := by
      refine strAt_of_holdsAt ?_ (DirEntry_name_nul e) ?_ (by omega)
      · refine HoldsAt.update (fun j hj => ?_) (Or.inr (Nat.zero_add _).le) 0
        rw [Nat.zero_add]
        exact if_pos hj
      · rw [Nat.zero_add, Function.update_self]
    rw [hstr]
    refine Program.wp_bind (Program.wp_mono ?_ (does_doOneFile hroom' hs hne
      (DirEntry_name_nul e) (by omega) (hdir.lookup he) (hok e he hhidden) h8e (hfresh k e he)
      (hlong e he hhidden)))
    rintro ret o'' ⟨rfl, hframe, hfree, hprinted'⟩
    simp only [ne_eq, not_true_eq_false, if_false]
    have hvacant := hroom'.vacant_flags
    have hfd : fdIndex fd ≠ j := by
      rintro rfl
      exact (hnext.flags) hvacant
    have h1j : 1 ≠ j := by
      rintro rfl
      exact hroom'.stdout.flags hvacant
    refine ⟨left.length, Nat.lt_succ_self _, left, out ++ entryReports img s e, rfl, hmem',
      hnext.congr (hframe _ hfd), hroom'.congr (fun k => ?_) (hframe 1 h1j), ?_, ?_⟩
    · by_cases hk : k = j
      · subst hk
        exact iff_of_true hfree hvacant
      · rw [hframe k hk]
    · rw [hprinted', entryReports, if_neg hhidden, ← List.append_assoc, ← hprinted]
      rfl
    · rw [List.append_assoc]
      exact htotal

/-- `grep` on its own state. -/
lemma does_grep (hroom : o.Room i) (hs : ∀ x ∈ o.argument, x ≠ 0) (hne : o.argument ≠ [])
    (hlen : o.argument.length < 1024) (hdir : DirOk img) {d : DirEntry}
    (hname : readDentryByName img (text ".") = some d) (hd : driverOf d.fileType = some .dir)
    (hroom' : (o.opened i d .dir).Room j)
    (hok : ∀ e ∈ img.entries, ¬hidden e → SearchOk img e)
    (h8 : ∀ e ∈ img.entries, 8 ∉ entryReports img o.argument e)
    {fresh : ℕ → Buf} (hfresh : ∀ k, ∀ e ∈ img.entries, Fresh (fresh k) (entryText img e))
    {turns : ℕ} (hturns : img.entries.length < turns)
    (hlong : ∀ e ∈ img.entries, ¬hidden e → (entryText img e).length + 1024 < turns)
    (buf search : Buf) :
    Does img (grep turns buf search fresh) (fun ret o' => ret = 0 ∧
      o'.printed = o.printed ++ img.entries.flatMap (entryReports img o.argument)) o := by
  have h0 : 0 ∉ o.argument := fun h => hs 0 h rfl
  have hargs : o.serve img (.getargs search 1024) =
      some ((0, memcpy search o.argument.byteAt 1024), o) := by
    rw [Own.serve, if_neg (by decide), if_neg (not_or.2 ⟨by decide, hne⟩)]
    rfl
  have harg : strAt (memcpy search o.argument.byteAt 1024) 1024 0 = o.argument := by
    refine strAt_of_holdsAt (fun k hk => ?_) h0 ?_ (by omega)
    · rw [Nat.zero_add]
      exact if_pos (by omega)
    · rw [Nat.zero_add, memcpy, if_pos hlen]
      exact Str.byteAt_of_ge le_rfl
  refine Program.wp_bind (does_ask hargs ?_)
  simp only [ne_eq, not_true_eq_false, if_false, harg]
  refine Program.wp_bind (does_returned (serve_opened hroom hname hd) ?_)
  simp only [hroom.fd_ne, if_false]
  exact does_grepLoop hdir h0 hne hok h8 (fun _ h => h) (hroom.dirAt d) hroom' hfresh hturns hlong buf

end Directory

/-- **`grep` prints the lines that hold its argument**, with the names of their files, entry by
entry of the directory; in a file without a `NUL` these are the lines of the text, cut at 1024 bytes.
Nothing that is printed has a backspace, and no uninitialised byte is taken for a newline. -/
theorem grep_prints (img : Image) (s : Session) (o : Own) (hs : Owns s o) (i j : ℕ)
    (hroom : o.Room i) (hne : o.argument ≠ []) (hlen : o.argument.length < 1024)
    (hdir : DirOk img) (d : DirEntry) (hname : readDentryByName img (text ".") = some d)
    (hd : driverOf d.fileType = some .dir) (hroom' : (o.opened i d .dir).Room j)
    (hok : ∀ e ∈ img.entries, ¬hidden e → SearchOk img e)
    (h8 : ∀ e ∈ img.entries, 8 ∉ entryReports img o.argument e)
    (fresh : ℕ → Buf) (hfresh : ∀ k, ∀ e ∈ img.entries, Fresh (fresh k) (entryText img e))
    (turns : ℕ) (hturns : img.entries.length < turns)
    (hlong : ∀ e ∈ img.entries, ¬hidden e → (entryText img e).length + 1024 < turns)
    (buf search : Buf) (work : ℕ → Session → Session)
    (hwork : ∀ i s, Undisturbed s (work i s)) :
    (∃ t, Program.run (Session.serve img) (grep turns buf search fresh) work s = some (0, t) ∧
      t.printed = s.printed ++ img.entries.flatMap (entryReports img o.argument)) ∧
    ∀ e ∈ img.entries, ¬hidden e → 0 ∉ entryText img e → entryReports img o.argument e =
      (CutLines.lines 1024 10 (entryText img e)).flatMap (report o.argument e.name) := by
  constructor
  · obtain ⟨ret, t, hrun, o', howns, rfl, hprinted⟩ :=
      (does_grep hroom hs.nonzero hne hlen hdir hname hd hroom' hok h8 hfresh hturns hlong buf
        search).run hs hwork
    refine ⟨t, hrun, ?_⟩
    rw [howns.printed, hprinted, hs.printed]
  · intro e _ hhidden h0
    rw [entryReports, if_neg hhidden, reports_of_notMem hne h0]

/-- The bytes of a program: a line is ended, and the next one is moved. -/
def binary : Str := [127, 69, 76, 70, 1, 0, 8, 10, 99, 97, 0, 8, 97]

/-- An image with a file that holds the lines `cab` and `de`, and with a program. -/
def textImage : Image where
  numDirEntries := 4
  numInodes := 2
  numDataBlks := 2
  dirEntries i := [sampleImage.dirEntries 0, sampleEntry fishName length_fishName 2 0,
    sampleEntry shellName length_shellName 2 1].getD i (sampleEntry rtcName length_rtcName 0 0)
  inodes i := if i = 0 then ⟨7, fun _ => 0⟩ else ⟨13, fun _ => 1⟩
  blocks b i := (if b = 0 then text "cab\nde\n" else binary).getD i 0

/-- Its entries. -/
lemma textImage_cases {P : DirEntry → Prop} (h0 : P (textImage.dirEntries 0))
    (h1 : P (textImage.dirEntries 1)) (h2 : P (textImage.dirEntries 2))
    (h3 : P (textImage.dirEntries 3)) : ∀ e ∈ textImage.entries, P e := by
  intro e he
  obtain ⟨i, hi, rfl⟩ := List.mem_map.1 he
  have hi' : i < 4 := List.mem_range.1 hi
  interval_cases i
  · exact h0
  · exact h1
  · exact h2
  · exact h3

lemma textImage_fish : entryText textImage (textImage.dirEntries 1) = text "cab\nde\n" := by
  decide +kernel

lemma textImage_shell : entryText textImage (textImage.dirEntries 2) = binary := by
  decide +kernel

lemma textImage_rtc : entryText textImage (textImage.dirEntries 3) = [] := rfl

lemma textImage_ok : ∀ e ∈ textImage.entries, ¬hidden e → SearchOk textImage e := by
  have htext : Readable textImage (textImage.inodes 0) :=
    ⟨⟨by decide, fun j _ => (by decide : (0 : UInt32) < 2)⟩, (by decide : ¬(0 : UInt32) > 2 - 1)⟩
  have hprogram : Readable textImage (textImage.inodes 1) :=
    ⟨⟨by decide, fun j _ => (by decide : (1 : UInt32) < 2)⟩, (by decide : ¬(1 : UInt32) > 2 - 1)⟩
  refine textImage_cases (fun h => absurd (by decide) h) (fun _ => ?_) (fun _ => ?_) (fun _ => ?_)
  · exact ⟨⟨by decide, fun _ => ⟨by decide, htext⟩, fun h => absurd h (by decide)⟩, by decide⟩
  · exact ⟨⟨by decide, fun _ => ⟨by decide, hprogram⟩, fun h => absurd h (by decide)⟩, by decide⟩
  · exact ⟨⟨by decide, fun h => absurd h (by decide), fun h => absurd h (by decide)⟩, by decide⟩

/-- Both lines of the file fit into the array. -/
lemma textImage_fish_reports :
    entryReports textImage (text "a") (textImage.dirEntries 1) = text "fish:cab\n" := by
  have hlines : CutLines.lines 1024 10 (text "cab\nde\n") = [text "cab", text "de"] := by
    rw [CutLines.lines_of_fits (by decide) (by decide)]
    decide
  rw [entryReports, if_neg (by decide), textImage_fish, reports_of_notMem (by decide) (by decide),
    hlines]
  decide

/-- The line that is moved is printed up to its `NUL`. -/
lemma textImage_shell_reports :
    entryReports textImage (text "a") (textImage.dirEntries 2) = text "shell:ca\n" := by
  have hmoved : reports (text "a") shellName [] (binary ++ []) =
      windowReports (text "a") shellName ([] ++ binary) [] :=
    reports_append (by decide) (by decide) (by decide) (Or.inr ⟨by decide, rfl⟩)
  rw [List.append_nil, List.nil_append, windowReports, if_pos (by decide), reports_nil] at hmoved
  rw [entryReports, if_neg (by decide), textImage_shell]
  refine Eq.trans hmoved ?_
  decide

lemma textImage_rtc_reports : entryReports textImage (text "a") (textImage.dirEntries 3) = [] := by
  rw [entryReports, if_neg (by decide), textImage_rtc, reports_nil, report_nil (by decide)]

/-- The lines that hold an `a`, of the text and of the program. -/
theorem grep_prints_line : ∃ t,
    Program.run (Session.serve textImage) (grep 2000 noBuf noBuf fun _ => noBuf) (fun _ s => s)
      (sampleSession (text "a")) = some (0, t) ∧ t.printed = text "fish:cab\nshell:ca\n" := by
  have hdot : entryReports textImage (text "a") (textImage.dirEntries 0) = [] := if_pos (by decide)
  have hzero : ∀ cs, Fresh noBuf cs :=
    fun cs => ⟨by decide, fun _ _ _ => (by decide : (0 : UInt8) ≠ 10)⟩
  obtain ⟨⟨t, hrun, hprinted⟩, -⟩ := grep_prints textImage (sampleSession (text "a"))
    (sampleOwn (text "a")) (sample_owns (by decide)) 2 3 ⟨by decide, ⟨rfl, by decide⟩, by decide⟩
    (by decide) (by decide) ⟨by decide, by decide, by decide⟩ (textImage.dirEntries 0) rfl
    (by decide) ⟨by decide, ⟨rfl, by decide⟩, by decide⟩ textImage_ok
    (textImage_cases (hdot ▸ List.not_mem_nil) (textImage_fish_reports ▸ by decide)
      (textImage_shell_reports ▸ by decide) (textImage_rtc_reports ▸ List.not_mem_nil))
    (fun _ => noBuf) (fun _ _ _ => hzero _) 2000 (by decide)
    (textImage_cases (fun h => absurd (by decide) h) (fun _ => textImage_fish ▸ by decide)
      (fun _ => textImage_shell ▸ by decide) (fun _ => textImage_rtc ▸ by decide))
    noBuf noBuf (fun _ s => s) (fun _ s => Undisturbed.refl s)
  refine ⟨t, hrun, hprinted.trans ?_⟩
  have hentries : textImage.entries = [textImage.dirEntries 0, textImage.dirEntries 1,
      textImage.dirEntries 2, textImage.dirEntries 3] := rfl
  rw [hentries]
  simp only [List.flatMap_cons, List.flatMap_nil, List.append_nil]
  change [] ++ (entryReports textImage (text "a") (textImage.dirEntries 0) ++
    (entryReports textImage (text "a") (textImage.dirEntries 1) ++
      (entryReports textImage (text "a") (textImage.dirEntries 2) ++
        entryReports textImage (text "a") (textImage.dirEntries 3)))) = _
  rw [hdot, textImage_fish_reports, textImage_shell_reports, textImage_rtc_reports]
  decide

end Userland

end WnajOS
