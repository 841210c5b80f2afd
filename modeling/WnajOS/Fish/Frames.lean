import WnajOS.Fish.Phases
import Mathlib.Data.List.GetD

/-!
# Two pictures over each other (`add_frames` of `fish.c`)

`fish` puts two pictures into the right half of the screen, one for on and one for off.  Each place
where one of them has a character becomes a blinking character, all with the same lengths, so that
the screen shows the pictures in turn.
-/

namespace WnajOS

namespace Fish

/-- What a picture has in a place: a line that is too short is filled with blanks, and so are the
rows below the last line. -/
def pictureAt (t : List UInt8) (row col : ℕ) : UInt8 := ((t.splitOn 10).getD row []).getD col 32

/-- The characters of a row of both pictures. -/
def framePairs (l0 l1 : List UInt8) : List (UInt8 × UInt8) :=
  List.zipWithAll (fun c0 c1 => (c0.getD 32, c1.getD 32)) l0 l1

/-- The rows of both pictures, given as lines. -/
def frameLines (ls0 ls1 : List (List UInt8)) : List (List (UInt8 × UInt8)) :=
  List.zipWithAll (fun l0 l1 => framePairs (l0.getD []) (l1.getD [])) ls0 ls1

/-- The rows of both pictures. -/
def frameRows (t0 t1 : List UInt8) : List (List (UInt8 × UInt8)) :=
  frameLines (t0.splitOn 10) (t1.splitOn 10)

/-- The record for a place; what is never stored to stays as it was in `user`. -/
def frameRecord (user : Mp1BlinkStruct) (location : ℕ) (c : UInt8 × UInt8) : Mp1BlinkStruct :=
  { user with
    location := UInt16.ofNat location, onChar := c.1, offChar := c.2, onLength := 15,
    offLength := 15 }

/-- The commands for a row whose next place is `location`. -/
def addPairs (user : Mp1BlinkStruct) : ℕ → List (UInt8 × UInt8) → List Command
  | _, [] => []
  | location, c :: cs =>
    if c = (32, 32) then addPairs user (location + 1) cs
    else .add (frameRecord user location c) :: addPairs user (location + 1) cs

/-- The commands for the rows from `row` on. -/
def addRows (user : Mp1BlinkStruct) : ℕ → List (List (UInt8 × UInt8)) → List Command
  | _, [] => []
  | row, cs :: rows => addPairs user (row * 80 + 40) cs ++ addRows user (row + 1) rows

/-- A picture whose lines do not reach into the right half of the next row, and whose last place is
a number of 16 bits. -/
structure Picture (t : List UInt8) : Prop where
  width : ∀ l ∈ t.splitOn 10, l.length ≤ 80
  height : (t.splitOn 10).length ≤ 818

/-! ### The places -/

section Places

variable {l0 l1 t0 t1 : List UInt8} {row col : ℕ} {c : UInt8 × UInt8}

lemma framePairs_getElem? : (framePairs l0 l1)[col]? =
    if col < max l0.length l1.length then some (l0.getD col 32, l1.getD col 32) else none := by
  rw [framePairs, List.getElem?_zipWithAll, List.getD_eq_getElem?_getD, List.getD_eq_getElem?_getD]
  split
  · rename_i h0 h1
    rw [List.getElem?_eq_none_iff] at h0 h1
    rw [if_neg (by omega)]
  · rename_i hnone
    rw [if_pos]
    by_contra hmax
    exact hnone (List.getElem?_eq_none (by omega)) (List.getElem?_eq_none (by omega))

lemma frameRows_getElem? : (frameRows t0 t1)[row]? =
    if row < max (t0.splitOn 10).length (t1.splitOn 10).length then
      some (framePairs ((t0.splitOn 10).getD row []) ((t1.splitOn 10).getD row [])) else none := by
  rw [frameRows, frameLines, List.getElem?_zipWithAll, List.getD_eq_getElem?_getD,
    List.getD_eq_getElem?_getD]
  split
  · rename_i h0 h1
    rw [List.getElem?_eq_none_iff] at h0 h1
    rw [if_neg (by omega)]
  · rename_i hnone
    rw [if_pos]
    by_contra hmax
    exact hnone (List.getElem?_eq_none (by omega)) (List.getElem?_eq_none (by omega))

lemma zipWithAll_step {α β γ : Type} {f : Option α → Option β → γ} {as : List α} {bs : List β}
    (h : as ≠ [] ∨ bs ≠ []) : List.zipWithAll f as bs =
      f as.head? bs.head? :: List.zipWithAll f as.tail bs.tail := by
  cases as with
  | nil =>
    cases bs with
    | nil => simp at h
    | cons b bs => simp
  | cons a as =>
    cases bs with
    | nil => simp
    | cons b bs => simp

lemma framePairs_step (h : l0 ≠ [] ∨ l1 ≠ []) :
    framePairs l0 l1 = (l0.headD 32, l1.headD 32) :: framePairs l0.tail l1.tail := by
  rw [framePairs, zipWithAll_step h, List.headD_eq_head?_getD, List.headD_eq_head?_getD]
  rfl

lemma frameLines_step {ls0 ls1 : List (List UInt8)} (h : ls0 ≠ [] ∨ ls1 ≠ []) :
    frameLines ls0 ls1 = framePairs (ls0.headD []) (ls1.headD []) ::
      frameLines ls0.tail ls1.tail := by
  rw [frameLines, zipWithAll_step h, List.headD_eq_head?_getD, List.headD_eq_head?_getD]
  rfl

lemma length_framePairs (h0 : l0.length ≤ 80) (h1 : l1.length ≤ 80) :
    (framePairs l0 l1).length ≤ 80 := by
  rw [← List.getElem?_eq_none_iff, framePairs_getElem?, if_neg (by omega)]

lemma length_frameRows (h0 : Picture t0) (h1 : Picture t1) : (frameRows t0 t1).length ≤ 818 := by
  have hheight0 := h0.height
  have hheight1 := h1.height
  rw [← List.getElem?_eq_none_iff, frameRows_getElem?, if_neg (by omega)]

lemma length_getD (h : Picture t0) (row : ℕ) : ((t0.splitOn 10).getD row []).length ≤ 80 := by
  by_cases hrow : row < (t0.splitOn 10).length
  · rw [List.getD_eq_getElem _ _ hrow]
    exact h.width _ (List.getElem_mem hrow)
  · rw [List.getD_eq_default _ _ (not_lt.1 hrow), List.length_nil]
    exact Nat.zero_le _

lemma length_of_mem_frameRows (h0 : Picture t0) (h1 : Picture t1) {cs : List (UInt8 × UInt8)}
    (hcs : cs ∈ frameRows t0 t1) : cs.length ≤ 80 := by
  obtain ⟨row, hrow⟩ := List.mem_iff_getElem?.1 hcs
  rw [frameRows_getElem?] at hrow
  split at hrow
  · obtain rfl := Option.some.inj hrow
    exact length_framePairs (length_getD h0 row) (length_getD h1 row)
  · exact absurd hrow (by simp)

/-- A place that is not blank in both pictures is one of the places of the rows. -/
lemma frameRows_place (h : pictureAt t0 row col ≠ 32 ∨ pictureAt t1 row col ≠ 32) :
    ∃ cs, (frameRows t0 t1)[row]? = some cs ∧
      cs[col]? = some (pictureAt t0 row col, pictureAt t1 row col) := by
  have hcol : col < max ((t0.splitOn 10).getD row []).length
      ((t1.splitOn 10).getD row []).length := by
    by_contra hout
    rw [pictureAt, pictureAt, List.getD_eq_default _ _ (by omega),
      List.getD_eq_default _ _ (by omega)] at h
    simp at h
  have hrow : row < max (t0.splitOn 10).length (t1.splitOn 10).length := by
    by_contra hout
    rw [List.getD_eq_default (t0.splitOn 10) _ (by omega),
      List.getD_eq_default (t1.splitOn 10) _ (by omega)] at hcol
    simp at hcol
  refine ⟨_, by rw [frameRows_getElem?, if_pos hrow], ?_⟩
  rw [framePairs_getElem?, if_pos hcol]
  rfl

end Places

/-! ### The commands -/

section Commands

variable {user : Mp1BlinkStruct} {location row : ℕ} {cs cs' : List (UInt8 × UInt8)}
  {rows rows' : List (List (UInt8 × UInt8))}

lemma addPairs_append : addPairs user location (cs ++ cs') =
    addPairs user location cs ++ addPairs user (location + cs.length) cs' := by
  induction cs generalizing location with
  | nil => rfl
  | cons c cs ih =>
    rw [List.cons_append, addPairs, addPairs, ih, List.length_cons, Nat.add_right_comm,
      ← Nat.add_assoc]
    split
    · rfl
    · rfl

lemma addRows_append : addRows user row (rows ++ rows') =
    addRows user row rows ++ addRows user (row + rows.length) rows' := by
  induction rows generalizing row with
  | nil => rfl
  | cons cs rows ih =>
    rw [List.cons_append, addRows, addRows, ih, List.length_cons, List.append_assoc,
      Nat.add_right_comm, ← Nat.add_assoc]

lemma length_addPairs (user : Mp1BlinkStruct) (location : ℕ) (cs : List (UInt8 × UInt8)) :
    (addPairs user location cs).length ≤ cs.length := by
  induction cs generalizing location with
  | nil => exact le_rfl
  | cons c cs ih =>
    have hle := ih (location + 1)
    rw [addPairs, List.length_cons]
    split
    · omega
    · rw [List.length_cons]
      omega

lemma length_addRows (user : Mp1BlinkStruct) (row : ℕ) (h : ∀ cs ∈ rows, cs.length ≤ 80) :
    (addRows user row rows).length ≤ rows.length * 80 := by
  induction rows generalizing row with
  | nil => exact Nat.zero_le _
  | cons cs rows ih =>
    have hfirst := h cs (List.mem_cons_self ..)
    have hrest := ih (row + 1) fun cs' h' => h cs' (List.mem_cons_of_mem _ h')
    have hpairs := length_addPairs user (row * 80 + 40) cs
    rw [addRows, List.length_append, List.length_cons]
    omega

/-- Only characters in places from `a` to below `b` are added. -/
def AddsWithin (a b : ℕ) (cmds : List Command) : Prop :=
  ∀ c ∈ cmds, ∃ user, c = .add user ∧ a ≤ user.location.toNat ∧ user.location.toNat < b

lemma AddsWithin.mono {a b a' b' : ℕ} {cmds : List Command} (h : AddsWithin a b cmds)
    (ha : a' ≤ a) (hb : b ≤ b') : AddsWithin a' b' cmds := by
  intro c hc
  obtain ⟨user, rfl, hle, hlt⟩ := h c hc
  exact ⟨user, rfl, ha.trans hle, hlt.trans_le hb⟩

lemma AddsWithin.append {a b : ℕ} {cmds cmds' : List Command} (h : AddsWithin a b cmds)
    (h' : AddsWithin a b cmds') : AddsWithin a b (cmds ++ cmds') := by
  intro c hc
  rcases List.mem_append.1 hc with hc | hc
  · exact h c hc
  · exact h' c hc

/-- The places of a row. -/
lemma addPairs_within (user : Mp1BlinkStruct) (location : ℕ) {cs : List (UInt8 × UInt8)}
    (h : location + cs.length ≤ 2 ^ 16) :
    AddsWithin location (location + cs.length) (addPairs user location cs) := by
  induction cs generalizing location with
  | nil => exact fun c hc => absurd hc List.not_mem_nil
  | cons c cs ih =>
    rw [List.length_cons] at h ⊢
    have hrest := (ih (location + 1) (by omega)).mono
      (show location ≤ location + 1 by omega)
      (show location + 1 + cs.length ≤ location + (cs.length + 1) by omega)
    rw [addPairs]
    split
    · exact hrest
    · rintro cmd hcmd
      rcases List.mem_cons.1 hcmd with rfl | hcmd
      · have hloc : (frameRecord user location c).location.toNat = location :=
          UInt16.toNat_ofNat_of_lt' (by rw [UInt16.size]; omega)
        exact ⟨_, rfl, hloc.ge, by rw [hloc]; omega⟩
      · exact hrest cmd hcmd

/-- The places of the rows. -/
lemma addRows_within (user : Mp1BlinkStruct) (row : ℕ) (hwidth : ∀ cs ∈ rows, cs.length ≤ 80)
    (hheight : (row + rows.length) * 80 + 40 ≤ 2 ^ 16) :
    AddsWithin (row * 80 + 40) ((row + rows.length) * 80 + 40) (addRows user row rows) := by
  induction rows generalizing row with
  | nil => exact fun c hc => absurd hc List.not_mem_nil
  | cons cs rows ih =>
    rw [List.length_cons] at hheight ⊢
    have hfirst := hwidth cs (List.mem_cons_self ..)
    have hpairs := addPairs_within user (row * 80 + 40)
      (show row * 80 + 40 + cs.length ≤ 2 ^ 16 by omega)
    have hrest := ih (row + 1) (fun cs' h' => hwidth cs' (List.mem_cons_of_mem _ h'))
      (by omega)
    exact (hpairs.mono le_rfl (by omega)).append (hrest.mono (by omega) (by omega))

lemma AddsWithin.offCorner {a b : ℕ} {cmds : List Command} (h : AddsWithin a b cmds) (ha : 0 < a) :
    ∀ c ∈ cmds, c.OffCorner := by
  intro c hc
  obtain ⟨user, rfl, hle, -⟩ := h c hc
  intro h0
  rw [h0, UInt16.toNat_zero] at hle
  omega

lemma AddsWithin.spares {a b : ℕ} {cmds : List Command} (h : AddsWithin a b cmds) {l : UInt16}
    (hl : l.toNat < a) : ∀ c ∈ cmds, c.Spares l := by
  intro c hc
  obtain ⟨user, rfl, hle, -⟩ := h c hc
  intro heq
  rw [heq] at hle
  omega

lemma AddsWithin.ticks {a b : ℕ} {cmds : List Command} (h : AddsWithin a b cmds) :
    Fish.ticks cmds = 0 := by
  induction cmds with
  | nil => rfl
  | cons c cmds ih =>
    obtain ⟨user, rfl, -⟩ := h c List.mem_cons_self
    exact ih fun c' hc' => h c' (List.mem_cons_of_mem _ hc')

/-- The list after some characters were added. -/
lemma AddsWithin.list {a b : ℕ} {cmds : List Command} (h : AddsWithin a b cmds) {s : Blinkers}
    (hs : ∀ c ∈ s.list, c.location.toNat < b) :
    (∀ c ∈ (s.commands cmds).2.list, c.location.toNat < b) ∧
      (s.commands cmds).2.list.length ≤ s.list.length + cmds.length := by
  induction cmds generalizing s with
  | nil => exact ⟨hs, le_rfl⟩
  | cons c cmds ih =>
    obtain ⟨user, rfl, -, hlt⟩ := h c List.mem_cons_self
    have hstep : (∀ c ∈ (s.command (.add user)).2.list, c.location.toNat < b) ∧
        (s.command (.add user)).2.list.length ≤ s.list.length + 1 := by
      rw [Blinkers.command, Blinkers.add]
      split
      · refine ⟨fun c hc => ?_, le_rfl⟩
        rcases List.mem_cons.1 hc with rfl | hc
        · exact hlt
        · exact hs c hc
      · exact ⟨hs, Nat.le_succ _⟩
    obtain ⟨hlocs, hlen⟩ := ih (fun c' hc' => h c' (List.mem_cons_of_mem _ hc')) hstep.1
    refine ⟨hlocs, hlen.trans ?_⟩
    rw [List.length_cons]
    omega

lemma ticks_append (cmds cmds' : List Command) :
    ticks (cmds ++ cmds') = ticks cmds + ticks cmds' := by
  induction cmds with
  | nil => exact (Nat.zero_add _).symm
  | cons c cmds ih =>
    cases c with
    | tasklet =>
      rw [List.cons_append, ticks, ticks, ih]
      omega
    | _ => exact ih

/-- What is added for a row is what it has in its places. -/
lemma mem_addPairs {cmd : Command} (h : cmd ∈ addPairs user location cs) :
    ∃ col c, cs[col]? = some c ∧ c ≠ (32, 32) ∧
      cmd = .add (frameRecord user (location + col) c) := by
  induction cs generalizing location with
  | nil => exact absurd h List.not_mem_nil
  | cons c cs ih =>
    have hrest : cmd ∈ addPairs user (location + 1) cs → ∃ col c', (c :: cs)[col]? = some c' ∧
        c' ≠ (32, 32) ∧ cmd = .add (frameRecord user (location + col) c') := by
      intro hmem
      obtain ⟨col, c', hcol, hne, rfl⟩ := ih hmem
      refine ⟨col + 1, c', hcol, hne, ?_⟩
      rw [← Nat.add_assoc, Nat.add_right_comm]
    rw [addPairs] at h
    split at h
    · exact hrest h
    · rename_i hne
      rcases List.mem_cons.1 h with rfl | h
      · exact ⟨0, c, rfl, hne, rfl⟩
      · exact hrest h

lemma mem_addRows {cmd : Command} (h : cmd ∈ addRows user row rows) :
    ∃ r cs col c, rows[r]? = some cs ∧ cs[col]? = some c ∧ c ≠ (32, 32) ∧
      cmd = .add (frameRecord user ((row + r) * 80 + 40 + col) c) := by
  induction rows generalizing row with
  | nil => exact absurd h List.not_mem_nil
  | cons cs rows ih =>
    rw [addRows] at h
    rcases List.mem_append.1 h with h | h
    · obtain ⟨col, c, hcol, hne, rfl⟩ := mem_addPairs h
      exact ⟨0, cs, col, c, rfl, hcol, hne, rfl⟩
    · obtain ⟨r, cs', col, c, hr, hcol, hne, rfl⟩ := ih h
      refine ⟨r + 1, cs', col, c, hr, hcol, hne, ?_⟩
      rw [← Nat.add_assoc, Nat.add_right_comm row]

end Commands

/-! ### The rest of the screen -/

lemma foldl_drawTick_of_ne {offset : ℕ} {l : List Blinker} (h : ∀ b ∈ l, b.offset ≠ offset)
    (vmem : ℕ → UInt8) : l.foldl Blinkers.drawTick vmem offset = vmem offset := by
  induction l generalizing vmem with
  | nil => rfl
  | cons b l ih =>
    rw [List.foldl_cons, ih fun b' hb' => h b' (List.mem_cons_of_mem _ hb'), Blinkers.drawTick]
    split
    · exact Function.update_of_ne (h b List.mem_cons_self).symm ..
    · rfl

/-- Nothing is drawn but at the locations of the list and of what is added. -/
lemma Blinkers.vmem_commands {offset : ℕ} {cs : List Command} {s : Blinkers}
    (hs : ∀ b ∈ s.list, b.offset ≠ offset)
    (hcs : ∀ user, Command.add user ∈ cs → user.offset ≠ offset) :
    (s.commands cs).2.vmem offset = s.vmem offset := by
  induction cs generalizing s with
  | nil => rfl
  | cons c cs ih =>
    have hdraws {b : Blinker} (hb : b.offset ≠ offset) (x : UInt8) :
        Function.update s.vmem b.offset x offset = s.vmem offset :=
      Function.update_of_ne hb.symm ..
    have hstep : (∀ b ∈ (s.command c).2.list, b.offset ≠ offset) ∧
        (s.command c).2.vmem offset = s.vmem offset := by
      cases c with
      | add user =>
        have huser := hcs user List.mem_cons_self
        rw [Blinkers.command, Blinkers.add]
        split
        · refine ⟨fun b hb => ?_, hdraws huser _⟩
          rcases List.mem_cons.1 hb with rfl | hb
          · exact huser
          · exact hs b hb
        · exact ⟨hs, rfl⟩
      | remove arg =>
        rw [Blinkers.command, Blinkers.remove]
        split
        · exact ⟨fun b hb => hs b (List.mem_of_mem_eraseP hb), rfl⟩
        · exact ⟨hs, rfl⟩
      | find location => exact ⟨hs, rfl⟩
      | sync arg =>
        rw [Blinkers.command, Blinkers.sync]
        dsimp only
        split
        · rename_i b₁ b₂ _ hsecond
          refine ⟨fun b hb => ?_, hdraws (hs b₂ (List.mem_of_find?_eq_some hsecond)) _⟩
          rcases mem_replaceF hb with hb | ⟨a, ha, heq⟩
          · exact hs b hb
          · split at heq
            · obtain rfl := Option.some.inj heq
              exact hs a ha
            · exact absurd heq (by simp)
        · exact ⟨hs, rfl⟩
      | tasklet =>
        refine ⟨fun b hb => ?_, ?_⟩
        · obtain ⟨a, ha, rfl⟩ := List.mem_map.1 hb
          have hoffset : a.tick.offset = a.offset := by
            rw [Blinker.offset, Blinker.tick]
            dsimp only
            split
            · rfl
            · rfl
          rw [hoffset]
          exact hs a ha
        · rw [Blinkers.command, Blinkers.tick]
          exact foldl_drawTick_of_ne hs s.vmem
    have hrest := ih hstep.1 fun user huser => hcs user (List.mem_cons_of_mem _ huser)
    exact hrest.trans hstep.2

/-! ### The pictures on the screen -/

section Shown

variable {t0 t1 : List UInt8} {row col : ℕ}

/-- The location of a place. -/
def placeAt (row col : ℕ) : ℕ := row * 80 + col + 40

lemma toNat_frameRecord (user : Mp1BlinkStruct) {location : ℕ} (h : location < 2 ^ 16)
    (c : UInt8 × UInt8) : (frameRecord user location c).location.toNat = location :=
  UInt16.toNat_ofNat_of_lt' (by rw [UInt16.size]; omega)

/-- What is added are the places of the pictures. -/
lemma add_mem_addRows {user user' : Mp1BlinkStruct} (h0 : Picture t0) (h1 : Picture t1)
    (h : Command.add user' ∈ addRows user 0 (frameRows t0 t1)) :
    ∃ row col, (pictureAt t0 row col ≠ 32 ∨ pictureAt t1 row col ≠ 32) ∧
      user'.location.toNat = placeAt row col := by
  obtain ⟨row, cs, col, c, hrow, hcol, hne, heq⟩ := mem_addRows h
  obtain rfl := Command.add.inj heq
  have hwidth := length_of_mem_frameRows h0 h1 (List.mem_of_getElem? hrow)
  have hheight := length_frameRows h0 h1
  obtain ⟨hrowlt, -⟩ := List.getElem?_eq_some_iff.1 hrow
  obtain ⟨hcollt, -⟩ := List.getElem?_eq_some_iff.1 hcol
  rw [frameRows_getElem?] at hrow
  split at hrow
  · obtain rfl := Option.some.inj hrow
    rw [framePairs_getElem?] at hcol
    split at hcol
    · obtain rfl := Option.some.inj hcol
      refine ⟨row, col, ?_, ?_⟩
      · by_contra hblank
        push Not at hblank
        exact hne (Prod.ext hblank.1 hblank.2)
      · rw [toNat_frameRecord user (by omega), placeAt]
        omega
    · exact absurd hcol (by simp)
  · exact absurd hrow (by simp)

/-- A place is added once: those before it and behind it are others. -/
lemma addRows_split (user : Mp1BlinkStruct) (h0 : Picture t0) (h1 : Picture t1) (hcol : col < 80)
    (h : pictureAt t0 row col ≠ 32 ∨ pictureAt t1 row col ≠ 32) :
    ∃ before after, addRows user 0 (frameRows t0 t1) = before ++ .add (frameRecord user
        (placeAt row col) (pictureAt t0 row col, pictureAt t1 row col)) :: after ∧
      AddsWithin 40 (placeAt row col) before ∧ before.length ≤ row * 80 + col ∧
      AddsWithin (placeAt row col + 1) (2 ^ 16) after := by
  obtain ⟨cs, hrow, hcell⟩ := frameRows_place h
  have hwidth : ∀ cs ∈ frameRows t0 t1, cs.length ≤ 80 :=
    fun cs hcs => length_of_mem_frameRows h0 h1 hcs
  have hheight := length_frameRows h0 h1
  generalize frameRows t0 t1 = rows at hrow hwidth hheight
  obtain ⟨hrowlt, rfl⟩ := List.getElem?_eq_some_iff.1 hrow
  have hcs := hwidth rows[row] (List.getElem_mem hrowlt)
  generalize hpair : (pictureAt t0 row col, pictureAt t1 row col) = c at hcell
  have hne : c ≠ (32, 32) := by
    rintro rfl
    obtain ⟨hblank0, hblank1⟩ := Prod.mk.inj hpair
    exact h.elim (· hblank0) (· hblank1)
  obtain ⟨hcollt, hget⟩ := List.getElem?_eq_some_iff.1 hcell
  -- the rows above, the places on the left, the place, those on the right, the rows below
  have hrows : rows = rows.take row ++ rows[row] :: rows.drop (row + 1) := by
    rw [← List.drop_eq_getElem_cons hrowlt, List.take_append_drop]
  have hcells : rows[row] = rows[row].take col ++ c :: rows[row].drop (col + 1) := by
    rw [← hget, ← List.drop_eq_getElem_cons hcollt, List.take_append_drop]
  have htake : (rows.take row).length = row := List.length_take_of_le hrowlt.le
  have htake' : (rows[row].take col).length = col := List.length_take_of_le hcollt.le
  have hdrop : (rows.drop (row + 1)).length = rows.length - (row + 1) := List.length_drop
  have hdrop' : (rows[row].drop (col + 1)).length = rows[row].length - (col + 1) := List.length_drop
  have habove : ∀ cs ∈ rows.take row, cs.length ≤ 80 :=
    fun cs hcs => hwidth cs (List.mem_of_mem_take hcs)
  have hbelow : ∀ cs ∈ rows.drop (row + 1), cs.length ≤ 80 :=
    fun cs hcs => hwidth cs (List.mem_of_mem_drop hcs)
  refine ⟨addRows user 0 (rows.take row) ++ addPairs user (row * 80 + 40) (rows[row].take col),
    addPairs user (placeAt row col + 1) (rows[row].drop (col + 1)) ++
      addRows user (row + 1) (rows.drop (row + 1)), ?_, ?_, ?_, ?_⟩
  · have hloc : row * 80 + 40 + col = placeAt row col := by
      rw [placeAt]
      omega
    conv_lhs => rw [hrows, addRows_append, addRows, htake, Nat.zero_add, hcells, addPairs_append,
      addPairs, if_neg hne, htake', hloc]
    simp only [List.append_assoc, List.cons_append]
  · have hup := addRows_within user 0 habove (by omega)
    have hleft := addPairs_within user (row * 80 + 40)
      (show row * 80 + 40 + (rows[row].take col).length ≤ 2 ^ 16 by omega)
    rw [htake, Nat.zero_add] at hup
    rw [htake'] at hleft
    exact (hup.mono (by omega) (by rw [placeAt]; omega)).append
      (hleft.mono (by omega) (by rw [placeAt]; omega))
  · have hup := length_addRows user 0 habove
    have hleft := length_addPairs user (row * 80 + 40) (rows[row].take col)
    rw [List.length_append]
    omega
  · have hplace : placeAt row col = row * 80 + col + 40 := rfl
    have hright := addPairs_within user (placeAt row col + 1)
      (show placeAt row col + 1 + (rows[row].drop (col + 1)).length ≤ 2 ^ 16 by omega)
    have hdown := addRows_within user (row + 1) hbelow (by omega)
    exact (hright.mono le_rfl (by rw [placeAt]; omega)).append
      (hdown.mono (by rw [placeAt]; omega) (by omega))

lemma goodLength_fifteen : GoodLength 15 := ⟨by decide, by decide⟩

lemma offCorner_addRows (user : Mp1BlinkStruct) (h0 : Picture t0) (h1 : Picture t1) :
    ∀ c ∈ addRows user 0 (frameRows t0 t1), c.OffCorner := by
  have hheight := length_frameRows h0 h1
  have hadds := addRows_within user 0
    (fun cs hcs => length_of_mem_frameRows h0 h1 hcs) (by omega)
  exact hadds.offCorner (by omega)

/-- A place that is not blank, with anything done elsewhere behind the commands for the rows. -/
lemma shown_place (vmem : ℕ → UInt8) (user : Mp1BlinkStruct) (h0 : Picture t0) (h1 : Picture t1)
    (hcol : col < 80) (hscreen : placeAt row col < numCells)
    (hne : pictureAt t0 row col ≠ 32 ∨ pictureAt t1 row col ≠ 32) {later : List Command}
    (hspares : ∀ c ∈ later, c.Spares (UInt16.ofNat (placeAt row col))) :
    (Blinkers.commands (addRows user 0 (frameRows t0 t1) ++ later) ⟨[], vmem⟩).2.vmem
        (placeAt row col * 2) =
      if ticks later % 30 < 15 then pictureAt t0 row col else pictureAt t1 row col := by
  obtain ⟨before, after, hsplit, hbefore, hlen, hafter⟩ := addRows_split user h0 h1 hcol hne
  have hscreen' : placeAt row col < 2000 := hscreen
  have hplace : row * 80 + col + 40 = placeAt row col := rfl
  have hloc := toNat_frameRecord user (show placeAt row col < 2 ^ 16 by omega)
    (pictureAt t0 row col, pictureAt t1 row col)
  obtain ⟨hlocs, hcount⟩ := hbefore.list (s := ⟨[], vmem⟩) fun c hc => absurd hc List.not_mem_nil
  rw [List.length_nil, Nat.zero_add] at hcount
  have hfresh : ∀ b ∈ (Blinkers.commands before ⟨[], vmem⟩).2.list,
      b.location ≠ UInt16.ofNat (placeAt row col) := by
    intro b hb heq
    have hlt := hlocs b hb
    have hloc' : (UInt16.ofNat (placeAt row col)).toNat = placeAt row col := hloc
    rw [heq, hloc'] at hlt
    exact absurd hlt (lt_irrefl _)
  have hroom : (Blinkers.commands before ⟨[], vmem⟩).2.list.length < numCells := by
    rw [numCells]
    omega
  have hspares' : ∀ c ∈ after ++ later, c.Spares (UInt16.ofNat (placeAt row col)) := by
    intro c hc
    rcases List.mem_append.1 hc with hc | hc
    · exact hafter.spares (hloc.trans_lt (Nat.lt_succ_self _)) c hc
    · exact hspares c hc
  have hblinks := blinks_of_added vmem before (after ++ later) (frameRecord user
    (placeAt row col) (pictureAt t0 row col, pictureAt t1 row col)) hfresh hroom
    (hloc.trans_lt hscreen) goodLength_fifteen goodLength_fifteen hspares'
  rw [ticks_append, hafter.ticks, Nat.zero_add] at hblinks
  have hdrawn := hblinks.drawn
  rw [Blinker.offset, hloc, Blinker.shown, Blinker.isOn, Blinker.period] at hdrawn
  rw [hsplit, List.append_assoc, List.cons_append, hdrawn]
  exact if_congr decide_eq_true_iff rfl rfl

/-- What is not a place of the pictures. -/
lemma vmem_addRows {offset : ℕ} (vmem : ℕ → UInt8) (user : Mp1BlinkStruct) (h0 : Picture t0)
    (h1 : Picture t1) (later : List Command)
    (hplaces : ∀ row col, (pictureAt t0 row col ≠ 32 ∨ pictureAt t1 row col ≠ 32) →
      placeAt row col * 2 ≠ offset)
    (hlater : ∀ user, .add user ∈ later → user.location.toNat * 2 ≠ offset) :
    (Blinkers.commands (addRows user 0 (frameRows t0 t1) ++ later) ⟨[], vmem⟩).2.vmem offset =
      vmem offset := by
  refine Blinkers.vmem_commands (fun b hb => absurd hb List.not_mem_nil) fun user' huser => ?_
  rcases List.mem_append.1 huser with huser | huser
  · obtain ⟨row, col, hne, hloc⟩ := add_mem_addRows h0 h1 huser
    rw [Blinker.offset, hloc]
    exact hplaces row col hne
  · exact hlater user' huser

end Shown

/-- **The screen shows the pictures in turn.**  Behind the commands of `add_frames`, whatever is
done later at other places, each place that is not blank in both pictures shows the first picture
for 15 ticks and the second one for 15 ticks; nothing else is drawn. -/
theorem frames_alternate (vmem : ℕ → UInt8) (user : Mp1BlinkStruct) (t0 t1 : List UInt8)
    (h0 : Picture t0) (h1 : Picture t1) (later : List Command) (hlater : ∀ c ∈ later, c.OffCorner)
    (n : ℕ) (hn : numCells ≤ n) :
    ∃ rs m, commands n (addRows user 0 (frameRows t0 t1) ++ later) (cleared vmem) = some (rs, m) ∧
      (∀ row col, col < 80 → placeAt row col < numCells →
        (pictureAt t0 row col ≠ 32 ∨ pictureAt t1 row col ≠ 32) →
        (∀ c ∈ later, c.Spares (UInt16.ofNat (placeAt row col))) →
        m.vmem (placeAt row col * 2) =
          if ticks later % 30 < 15 then pictureAt t0 row col else pictureAt t1 row col) ∧
      ∀ offset, (∀ row col, (pictureAt t0 row col ≠ 32 ∨ pictureAt t1 row col ≠ 32) →
          placeAt row col * 2 ≠ offset) →
        (∀ user, .add user ∈ later → user.location.toNat * 2 ≠ offset) →
        m.vmem offset = vmem offset := by
  have hcorner : ∀ c ∈ addRows user 0 (frameRows t0 t1) ++ later, c.OffCorner := by
    intro c hc
    rcases List.mem_append.1 hc with hc | hc
    · exact offCorner_addRows user h0 h1 c hc
    · exact hlater c hc
  obtain ⟨rs, m, ps, hrun, -, hm⟩ := (represents_cleared vmem).commands hn hcorner
  refine ⟨rs, m, hrun, fun row col hcol hscreen hne hspares => ?_, fun offset hplaces hothers => ?_⟩
  · rw [hm.vmem]
    exact shown_place vmem user h0 h1 hcol hscreen hne hspares
  · rw [hm.vmem]
    exact vmem_addRows vmem user h0 h1 later hplaces hothers

/-- A small fish, whose mouth opens and closes. -/
def fishOpen : List UInt8 := [10, 0x3C, 0x3E, 0x3C]

/-- The fish with a closed mouth, and a bubble above it. -/
def fishClosed : List UInt8 := [32, 32, 32, 0x6F, 10, 0x2D, 0x3E, 0x3C, 10]

lemma splitOn_fishOpen : fishOpen.splitOn 10 = [[], [0x3C, 0x3E, 0x3C]] := by decide

lemma splitOn_fishClosed :
    fishClosed.splitOn 10 = [[32, 32, 32, 0x6F], [0x2D, 0x3E, 0x3C], []] := by decide

/-- The bubble comes with the closed mouth. -/
theorem frames_alternate_fish : ∃ rs m, commands numCells
    (addRows mainRecord 0 (frameRows fishOpen fishClosed) ++ List.replicate 20 .tasklet)
      (cleared fun _ => 0x20) = some (rs, m) ∧
    m.vmem (placeAt 0 3 * 2) = 0x6F ∧ m.vmem (placeAt 1 0 * 2) = 0x2D := by
  obtain ⟨rs, m, hrun, hshown, -⟩ := frames_alternate (fun _ => 0x20) mainRecord fishOpen fishClosed
    ⟨by rw [splitOn_fishOpen]; simp, by rw [splitOn_fishOpen]; simp⟩
    ⟨by rw [splitOn_fishClosed]; simp, by rw [splitOn_fishClosed]; simp⟩
    (List.replicate 20 .tasklet) (by simp [Command.OffCorner]) numCells le_rfl
  have hspares (row col : ℕ) : ∀ c ∈ List.replicate 20 Command.tasklet,
      c.Spares (UInt16.ofNat (placeAt row col)) := by simp [Command.Spares]
  refine ⟨rs, m, hrun, ?_, ?_⟩
  · exact (hshown 0 3 (by decide) (by decide) (by decide) (hspares 0 3)).trans (by decide)
  · exact (hshown 1 0 (by decide) (by decide) (by decide) (hspares 1 0)).trans (by decide)

end Fish

end WnajOS
