import WnajOS.Fish.Blink

/-!
# How long a blinking character is on and off

A character is drawn when it is added and whenever its countdown runs out.  The tasklet takes the
countdown as a signed number, so the lengths that count are 1 to `2 ^ 15`.  As long as nothing is
done at its location, a character blinks with its own period, whatever is added and removed
elsewhere.  In the corner of the screen the list itself breaks.
-/

namespace WnajOS

namespace Fish

open HeapList

/-- A length for which the countdown is counted down. -/
def GoodLength (n : UInt16) : Prop := 0 < n.toNat ∧ n.toNat ≤ 2 ^ 15

namespace Blinker

/-- The number of ticks from one start to the next. -/
def period (b : Blinker) : ℕ := b.onLength.toNat + b.offLength.toNat

/-- Whether a character is on `k` ticks after it was added. -/
def isOn (b : Blinker) (k : ℕ) : Bool := k % b.period < b.onLength.toNat

/-- What is displayed `k` ticks after a character was added. -/
def shown (b : Blinker) (k : ℕ) : UInt8 := if b.isOn k then b.onChar else b.offChar

/-- The ticks that are left of a phase, `k` ticks after a character was added. -/
def left (b : Blinker) (k : ℕ) : ℕ :=
  if b.isOn k then b.onLength.toNat - k % b.period else b.period - k % b.period

/-- A character `k` ticks after it was added. -/
def after (b : Blinker) (k : ℕ) : Blinker :=
  { b with countdown := UInt16.ofNat (b.left k), status := if b.isOn k then 1 else 0 }

variable {b : Blinker}

/-- The test of the tasklet, for a countdown that is not over. -/
lemma countdown_pos {v : ℕ} (h1 : 0 < v) (hv : v ≤ 2 ^ 15) :
    (UInt16.ofNat v - 1).toInt16 > 0 ↔ 1 < v := by
  have hsub : (UInt16.ofNat v - 1).toNat = v - 1 := by
    rw [UInt16.toNat_sub_of_le]
    · rw [UInt16.toNat_ofNat_of_lt' (by rw [UInt16.size]; omega), UInt16.toNat_one]
    · rw [UInt16.le_iff_toNat_le, UInt16.toNat_ofNat_of_lt' (by rw [UInt16.size]; omega),
        UInt16.toNat_one]
      exact h1
  have hint : (UInt16.ofNat v - 1).toInt16.toInt = v - 1 := by
    have h2 : 2 * (UInt16.ofNat v - 1).toBitVec.toNat < 2 ^ 16 := by
      rw [UInt16.toNat_toBitVec, hsub]
      omega
    have hlt := BitVec.toInt_eq_toNat_of_lt h2
    rw [UInt16.toNat_toBitVec, hsub] at hlt
    rw [Int16.toInt]
    exact hlt.trans (by omega)
  rw [gt_iff_lt, Int16.lt_iff_toInt_lt, hint]
  simp only [Int16.toInt_zero]
  omega

lemma start_eq (hon : GoodLength b.onLength) : b.start = b.after 0 := by
  have hisOn : b.isOn 0 = true := by
    rw [isOn, Nat.zero_mod]
    exact decide_eq_true hon.1
  rw [start, after, left, if_pos hisOn, if_pos hisOn, Nat.zero_mod, Nat.sub_zero,
    UInt16.ofNat_toNat]

lemma left_pos (hon : GoodLength b.onLength) (hoff : GoodLength b.offLength) (k : ℕ) :
    0 < b.left k ∧ b.left k ≤ 2 ^ 15 := by
  obtain ⟨hon0, hon⟩ := hon
  obtain ⟨hoff0, hoff⟩ := hoff
  have hmod : k % b.period < b.period := Nat.mod_lt _ (Nat.add_pos_left hon0 _)
  rw [left, isOn]
  by_cases h : k % b.period < b.onLength.toNat
  · rw [if_pos (decide_eq_true h)]
    omega
  · rw [if_neg (by simpa using h)]
    rw [period] at hmod h ⊢
    omega

/-- The next tick of a period. -/
lemma succ_mod {k n : ℕ} : (k + 1) % n = if k % n + 1 = n then 0 else k % n + 1 := by
  rw [← Nat.mod_add_mod]
  split
  · rename_i heq
    rw [heq, Nat.mod_self]
  · rename_i hne
    rcases Nat.eq_zero_or_pos n with rfl | hpos
    · exact Nat.mod_zero _
    · have hmod := Nat.mod_lt k hpos
      exact Nat.mod_eq_of_lt (by omega)

/-- Within a phase there is one tick less with every tick. -/
lemma succ_of_left {k : ℕ} (h : 1 < b.left k) :
    b.isOn (k + 1) = b.isOn k ∧ b.left (k + 1) = b.left k - 1 := by
  rw [left, isOn] at h
  have hne : k % b.period + 1 ≠ b.period := by
    intro heq
    rw [period] at heq h
    split at h <;> omega
  rw [left, left, isOn, isOn, succ_mod, if_neg hne]
  by_cases hon : k % b.period < b.onLength.toNat
  · rw [if_pos (decide_eq_true hon)] at h
    have hnext : k % b.period + 1 < b.onLength.toNat := by omega
    rw [decide_eq_true hon, decide_eq_true hnext]
    refine ⟨rfl, ?_⟩
    simp only [reduceIte]
    omega
  · rw [decide_eq_false hon, decide_eq_false (by omega)]
    refine ⟨rfl, ?_⟩
    simp only [Bool.false_eq_true, reduceIte]
    omega

/-- At the end of a phase the other one begins. -/
lemma succ_of_left_one (hon : GoodLength b.onLength) (hoff : GoodLength b.offLength) {k : ℕ}
    (h : b.left k = 1) : b.isOn (k + 1) = !b.isOn k ∧
      b.left (k + 1) = if b.isOn k then b.offLength.toNat else b.onLength.toNat := by
  obtain ⟨hon, -⟩ := hon
  obtain ⟨hoff, -⟩ := hoff
  rw [left, isOn] at h
  rw [left, isOn, isOn, succ_mod]
  by_cases hlt : k % b.period < b.onLength.toNat
  · rw [if_pos (decide_eq_true hlt)] at h
    have hne : k % b.period + 1 ≠ b.period := by
      rw [period]
      rw [period] at h
      omega
    rw [if_neg hne, decide_eq_true hlt, decide_eq_false (by omega), if_neg Bool.false_ne_true,
      if_pos rfl]
    refine ⟨rfl, ?_⟩
    rw [period] at h ⊢
    omega
  · rw [if_neg (by simpa using hlt)] at h
    rw [if_pos (by omega), decide_eq_false hlt, decide_eq_true hon, if_neg Bool.false_ne_true,
      if_pos rfl]
    exact ⟨rfl, by omega⟩

section Tick

variable (hon : GoodLength b.onLength) (hoff : GoodLength b.offLength) (k : ℕ)
include hon hoff

/-- The countdown runs out at the end of a phase. -/
lemma pokes_after : (b.after k).pokes = decide (b.left k = 1) := by
  obtain ⟨hpos, hle⟩ := left_pos hon hoff k
  have htest := countdown_pos hpos hle
  rw [pokes, after]
  refine decide_eq_decide.2 ?_
  rw [htest]
  omega

lemma tick_after : (b.after k).tick = b.after (k + 1) := by
  obtain ⟨hpos, hle⟩ := left_pos hon hoff k
  have htest := countdown_pos hpos hle
  rw [tick, after]
  dsimp only
  by_cases hleft : b.left k = 1
  · obtain ⟨hisOn, hnext⟩ := succ_of_left_one hon hoff hleft
    rw [if_neg (by rw [htest]; omega), after, hisOn, hnext]
    cases b.isOn k with
    | false => simp
    | true => simp
  · obtain ⟨hisOn, hnext⟩ := succ_of_left (b := b) (k := k) (by omega)
    have hsub : UInt16.ofNat (b.left k) - 1 = UInt16.ofNat (b.left k - 1) := by
      rw [UInt16.ofNat_sub (by omega)]
      rfl
    rw [if_pos (by rw [htest]; omega), after, hisOn, hnext, hsub]

/-- What stands on the screen after a tick. -/
lemma drawn_after :
    (if (b.after k).pokes then (b.after k).flipped else b.shown k) = b.shown (k + 1) := by
  obtain ⟨hpos, -⟩ := left_pos hon hoff k
  rw [pokes_after hon hoff]
  by_cases hleft : b.left k = 1
  · obtain ⟨hisOn, -⟩ := succ_of_left_one hon hoff hleft
    rw [if_pos (decide_eq_true hleft), flipped, after, shown, hisOn]
    cases b.isOn k with
    | false => simp
    | true => simp
  · obtain ⟨hisOn, -⟩ := succ_of_left (b := b) (k := k) (by omega)
    rw [if_neg (by simpa using hleft), shown, shown, hisOn]

end Tick

end Blinker

/-! ### A character among others -/

/-- A command that does nothing at a location. -/
def Command.Spares (location : UInt16) : Command → Prop
  | .add user => user.location ≠ location
  | .remove arg => arg.toUInt16 ≠ location
  | .find _ => True
  | .sync arg => (arg &&& 0xFFFF).toUInt16 ≠ location
  | .tasklet => True

/-- The ticks of a list of commands. -/
def ticks : List Command → ℕ
  | [] => 0
  | .tasklet :: cs => ticks cs + 1
  | _ :: cs => ticks cs

/-- The only character of its location was added `k` ticks ago, and is displayed. -/
structure Blinks (s : Blinkers) (b : Blinker) (k : ℕ) : Prop where
  mem : b.after k ∈ s.list
  only : ∀ c ∈ s.list, c.location = b.location → c = b.after k
  drawn : s.vmem b.offset = b.shown k

lemma offset_ne {b c : Blinker} (h : c.location ≠ b.location) : c.offset ≠ b.offset := by
  intro heq
  rw [Blinker.offset, Blinker.offset] at heq
  exact h (UInt16.toNat_inj.1 (by omega))

lemma mem_replaceF {α : Type*} {f : α → Option α} {l : List α} {x : α} (h : x ∈ l.replaceF f) :
    x ∈ l ∨ ∃ a ∈ l, f a = some x := by
  induction l with
  | nil => exact absurd h (by simp)
  | cons a l ih =>
    rw [List.replaceF] at h
    cases hf : f a with
    | some y =>
      rw [hf] at h
      rcases List.mem_cons.1 h with rfl | h
      · exact Or.inr ⟨a, List.mem_cons_self, hf⟩
      · exact Or.inl (List.mem_cons_of_mem a h)
    | none =>
      rw [hf] at h
      rcases List.mem_cons.1 h with rfl | h
      · exact Or.inl List.mem_cons_self
      · rcases ih h with h | ⟨a', ha', h'⟩
        · exact Or.inl (List.mem_cons_of_mem a h)
        · exact Or.inr ⟨a', List.mem_cons_of_mem a ha', h'⟩

lemma mem_replaceF_of_none {α : Type*} {f : α → Option α} {l : List α} {x : α} (h : x ∈ l)
    (hx : f x = none) : x ∈ l.replaceF f := by
  induction l with
  | nil => exact absurd h List.not_mem_nil
  | cons a l ih =>
    rw [List.replaceF]
    rcases List.mem_cons.1 h with rfl | h
    · rw [hx]
      exact List.mem_cons_self
    · cases f a with
      | some y => exact List.mem_cons_of_mem y h
      | none => exact List.mem_cons_of_mem a (ih h)

/-- The tasklet draws a character's cell as its own turns say. -/
lemma foldl_drawTick {x : Blinker} {l : List Blinker}
    (h : ∀ c ∈ l, c.location = x.location → c = x) (vmem : ℕ → UInt8) :
    l.foldl Blinkers.drawTick vmem x.offset =
      if x ∈ l ∧ x.pokes then x.flipped else vmem x.offset := by
  induction l generalizing vmem with
  | nil => rw [List.foldl_nil, if_neg (by simp)]
  | cons c l ih =>
    rw [List.foldl_cons, ih fun c' hc' => h c' (List.mem_cons_of_mem c hc')]
    by_cases hloc : c.location = x.location
    · obtain rfl := h c List.mem_cons_self hloc
      rw [Blinkers.drawTick]
      by_cases hp : c.pokes
      · rw [if_pos hp, Function.update_self, ite_self, if_pos ⟨List.mem_cons_self, hp⟩]
      · rw [if_neg hp, if_neg fun hand => hp hand.2, if_neg fun hand => hp hand.2]
    · have hcell : Blinkers.drawTick vmem c x.offset = vmem x.offset := by
        rw [Blinkers.drawTick]
        split
        · exact Function.update_of_ne (offset_ne hloc).symm ..
        · rfl
      have hne : x ≠ c := fun heq => hloc (congrArg Blinker.location heq.symm)
      rw [hcell]
      refine if_congr ?_ rfl rfl
      rw [List.mem_cons, or_iff_right hne]

namespace Blinks

variable {s : Blinkers} {b : Blinker} {k : ℕ}

/-- A character that has just been added where there was none. -/
lemma added {vmem : ℕ → UInt8} {list : List Blinker} (hon : GoodLength b.onLength)
    (hnone : ∀ c ∈ list, c.location ≠ b.location) :
    Blinks ({ list := b.start :: list, vmem := vmem : Blinkers }.draw b.offset b.onChar) b 0 := by
  rw [Blinker.start_eq hon]
  refine ⟨List.mem_cons_self, fun c hc hloc => ?_, ?_⟩
  · rcases List.mem_cons.1 hc with rfl | hc
    · rfl
    · exact absurd hloc (hnone c hc)
  · have hisOn : b.isOn 0 = true := by
      rw [Blinker.isOn, Nat.zero_mod]
      exact decide_eq_true hon.1
    rw [Blinker.shown, if_pos hisOn]
    exact Function.update_self ..

/-- Drawing elsewhere. -/
lemma draw_of_ne (h : s.vmem b.offset = b.shown k) {c : Blinker} (hc : c.location ≠ b.location)
    (x : UInt8) : Function.update s.vmem c.offset x b.offset = b.shown k := by
  rw [Function.update_of_ne (offset_ne hc).symm]
  exact h

/-- A character goes on blinking, whatever is done elsewhere. -/
lemma command (h : Blinks s b k) (hon : GoodLength b.onLength) (hoff : GoodLength b.offLength)
    {c : Command} (hc : c.Spares b.location) : Blinks (s.command c).2 b (k + ticks [c]) := by
  cases c with
  | add user =>
    rw [Blinkers.command, Blinkers.add]
    split
    · refine ⟨List.mem_cons_of_mem _ h.mem, fun c hcin hloc => ?_, draw_of_ne h.drawn hc _⟩
      rcases List.mem_cons.1 hcin with rfl | hcin
      · exact absurd hloc hc
      · exact h.only c hcin hloc
    · exact h
  | remove arg =>
    rw [Blinkers.command, Blinkers.remove]
    split
    · have hne : arg.toUInt16 ≠ (b.after k).location := hc
      have hmem : b.after k ∈ s.list.eraseP fun b => arg.toUInt16 = b.location :=
        (List.mem_eraseP_of_neg (by simpa using hne)).2 h.mem
      exact ⟨hmem, fun c hcin => h.only c (List.mem_of_mem_eraseP hcin), h.drawn⟩
    · exact h
  | find location => exact h
  | sync arg =>
    rw [Blinkers.command, Blinkers.sync]
    dsimp only
    split
    · rename_i b₁ b₂ _ hsecond
      have hloc₂ : (arg &&& 0xFFFF).toUInt16 = b₂.location := by
        simpa using List.find?_some hsecond
      refine ⟨mem_replaceF_of_none h.mem (if_neg hc), fun c hcin hloc => ?_,
        draw_of_ne h.drawn (hloc₂ ▸ hc) _⟩
      rcases mem_replaceF hcin with hcin | ⟨a, -, ha⟩
      · exact h.only c hcin hloc
      · -- the record that was replaced is at the other location
        by_cases heq : (arg &&& 0xFFFF).toUInt16 = a.location
        · rw [if_pos heq] at ha
          obtain rfl := Option.some.inj ha
          exact absurd (heq.trans hloc) hc
        · rw [if_neg heq] at ha
          exact absurd ha (by simp)
    · exact h
  | tasklet =>
    have htick := Blinker.tick_after hon hoff k
    refine ⟨?_, fun c hcin hloc => ?_, ?_⟩
    · exact htick ▸ List.mem_map_of_mem h.mem
    · obtain ⟨a, ha, rfl⟩ := List.mem_map.1 hcin
      have haloc : a.location = b.location := by
        rw [← hloc, Blinker.tick]
        dsimp only
        split
        · rfl
        · rfl
      rw [h.only a ha haloc]
      exact htick
    · have honly : ∀ c ∈ s.list, c.location = (b.after k).location → c = b.after k := h.only
      have hdraw := foldl_drawTick honly s.vmem
      refine hdraw.trans ?_
      rw [if_congr (and_iff_right h.mem) rfl rfl]
      refine Eq.trans ?_ (Blinker.drawn_after hon hoff k)
      rw [← h.drawn]
      rfl

lemma commands (h : Blinks s b k) (hon : GoodLength b.onLength) (hoff : GoodLength b.offLength)
    {cs : List Command} (hcs : ∀ c ∈ cs, c.Spares b.location) :
    Blinks (s.commands cs).2 b (k + ticks cs) := by
  induction cs generalizing s k with
  | nil => exact h
  | cons c cs ih =>
    have hstep := h.command hon hoff (hcs c List.mem_cons_self)
    have hrest := ih hstep fun c' hc' => hcs c' (List.mem_cons_of_mem c hc')
    have hsum : k + ticks (c :: cs) = k + ticks [c] + ticks cs := by
      cases c with
      | tasklet =>
        rw [ticks, ticks, ticks]
        omega
      | _ => rfl
    rw [hsum]
    exact hrest

end Blinks

lemma Blinkers.commands_append (cs cs' : List Command) (s : Blinkers) :
    (s.commands (cs ++ cs')).2 = ((s.commands cs).2.commands cs').2 := by
  induction cs generalizing s with
  | nil => rfl
  | cons c cs ih => exact ih (s.command c).2

/-- A character that is added where there is none, and then left alone, blinks. -/
lemma blinks_of_added (vmem : ℕ → UInt8) (before after : List Command) (user : Mp1BlinkStruct)
    (hfresh : ∀ b ∈ (Blinkers.commands before ⟨[], vmem⟩).2.list, b.location ≠ user.location)
    (hroom : (Blinkers.commands before ⟨[], vmem⟩).2.list.length < numCells)
    (hscreen : user.location.toNat < numCells) (hon : GoodLength user.onLength)
    (hoff : GoodLength user.offLength) (hspares : ∀ c ∈ after, c.Spares user.location) :
    Blinks (Blinkers.commands (before ++ .add user :: after) ⟨[], vmem⟩).2 user.toBlinker
      (ticks after) := by
  have hadd : Blinks ((Blinkers.commands before ⟨[], vmem⟩).2.command (.add user)).2
      user.toBlinker 0 := by
    rw [Blinkers.command, Blinkers.add, if_pos ⟨hscreen, hroom⟩]
    exact Blinks.added hon hfresh
  have hblinks := hadd.commands hon hoff hspares
  rw [Nat.zero_add] at hblinks
  rw [Blinkers.commands_append]
  exact hblinks

/-- **A character blinks with its own period.**  It is added where there is none, and then anything
is added, removed, looked up and synchronised at the other locations: after `k` ticks it is
displayed as on when `k` modulo the sum of its lengths is less than the length for on, and as off
otherwise. -/
theorem blinking_in_phase (vmem : ℕ → UInt8) (before after : List Command) (user : Mp1BlinkStruct)
    (hcorner : ∀ c ∈ before ++ .add user :: after, c.OffCorner)
    (hfresh : ∀ b ∈ (Blinkers.commands before ⟨[], vmem⟩).2.list, b.location ≠ user.location)
    (hroom : (Blinkers.commands before ⟨[], vmem⟩).2.list.length < numCells)
    (hscreen : user.location.toNat < numCells) (hon : GoodLength user.onLength)
    (hoff : GoodLength user.offLength) (hspares : ∀ c ∈ after, c.Spares user.location)
    (n : ℕ) (hn : numCells ≤ n) :
    ∃ rs m, commands n (before ++ .add user :: after) (cleared vmem) = some (rs, m) ∧
      m.vmem (user.location.toNat * 2) =
        if ticks after % (user.onLength.toNat + user.offLength.toNat) < user.onLength.toNat
        then user.onChar else user.offChar := by
  obtain ⟨rs, m, ps, hrun, -, hm⟩ := (represents_cleared vmem).commands hn hcorner
  refine ⟨rs, m, hrun, ?_⟩
  have hblinks := blinks_of_added vmem before after user hfresh hroom hscreen hon hoff hspares
  have hshown : m.vmem (user.location.toNat * 2) = user.toBlinker.shown (ticks after) := by
    rw [hm.vmem]
    exact hblinks.drawn
  rw [hshown, Blinker.shown, Blinker.isOn, Blinker.period]
  exact if_congr decide_eq_true_iff rfl rfl

/-- After ten ticks the `M` is displayed, also with another character removed meanwhile. -/
theorem blinking_in_phase_main : ∃ rs m, commands numCells ([] ++ .add mainRecord ::
    (List.replicate 10 Command.tasklet ++ [.remove 41])) (cleared fun _ => 0x20) = some (rs, m) ∧
      m.vmem (mainRecord.location.toNat * 2) =
        if ticks (List.replicate 10 Command.tasklet ++ [.remove 41]) %
          (mainRecord.onLength.toNat + mainRecord.offLength.toNat) < mainRecord.onLength.toNat
        then mainRecord.onChar else mainRecord.offChar :=
  blinking_in_phase _ [] _ mainRecord
    (by simp [Command.OffCorner, mainRecord]) (by simp [Blinkers.commands])
    (by decide) (by decide) ⟨by decide, by decide⟩ ⟨by decide, by decide⟩
    (by simp [Command.Spares, mainRecord]) numCells le_rfl

/-! ### The corner of the screen -/

/-- A new character gets the first free cell, and its link leads to the one before. -/
lemma mp1IoctlAdd_eq {m : Memory} {p : ℕ} (hp : m.mp1Malloc = some p) {user : Mp1BlinkStruct}
    (hscreen : user.location.toNat < numCells) : m.mp1IoctlAdd user =
      (0, ({ m.setCell p ⟨user.toBlinker.start, m.mp1ListHead⟩ with
        mp1ListHead := some p } : Memory).mp1Poke user.offset user.onChar) := by
  have hsmall : ¬user.location ≥ UInt16.ofNat numCells := fun hge =>
    absurd (UInt16.le_iff_toNat_le.1 hge) (not_le.2 hscreen)
  rw [Memory.mp1IoctlAdd, if_neg hsmall, hp]

/-- The cell of a character in the corner is still the first free one. -/
lemma mp1Malloc_corner {m : Memory} {p : ℕ} (hp : m.mp1Malloc = some p) {user : Mp1BlinkStruct}
    (h0 : user.location = 0) : (m.mp1IoctlAdd user).2.mp1Malloc = some p := by
  have hscreen : user.location.toNat < numCells := by rw [h0]; decide
  have hzero : (m.blinkArray p).location = 0 := by
    rw [Memory.mp1Malloc] at hp
    simpa using List.find?_some hp
  have hfree (c : ℕ) : ((m.mp1IoctlAdd user).2.blinkArray c).location = 0 ↔
      (m.blinkArray c).location = 0 := by
    rw [mp1IoctlAdd_eq hp hscreen]
    dsimp only [Memory.mp1Poke]
    by_cases hc : c = p
    · subst hc
      rw [Memory.setCell_self]
      exact ⟨fun _ => hzero, fun _ => h0⟩
    · rw [m.setCell_of_ne hc]
  rw [← hp, Memory.mp1Malloc, Memory.mp1Malloc]
  exact congrArg (List.find? · _) (funext fun c => decide_eq_decide.2 (hfree c))

/-- **A character in the corner breaks the list.**  The character that is added next gets the same
cell, whose link then leads to itself: both calls succeed, and the tasklet never returns again. -/
theorem corner_breaks_list (vmem : ℕ → UInt8) (cs : List Command)
    (hcs : ∀ c ∈ cs, c.OffCorner)
    (hroom : (Blinkers.commands cs ⟨[], vmem⟩).2.list.length < numCells)
    (first second : Mp1BlinkStruct) (hfirst : first.location = 0)
    (hsecond : second.location.toNat < numCells) (n : ℕ) (hn : numCells ≤ n) :
    ∃ rs m, commands n cs (cleared vmem) = some (rs, m) ∧
      (m.mp1IoctlAdd first).1 = 0 ∧ ((m.mp1IoctlAdd first).2.mp1IoctlAdd second).1 = 0 ∧
      ∀ k, ((m.mp1IoctlAdd first).2.mp1IoctlAdd second).2.mp1RtcTasklet k = none := by
  obtain ⟨rs, m, ps, hrun, -, hm⟩ := (represents_cleared vmem).commands hn hcs
  rw [hm.length_list] at hroom
  obtain ⟨p, hp⟩ : ∃ p, m.mp1Malloc = some p := by
    rcases hm.malloc with ⟨-, hfull⟩ | ⟨p, hp, -⟩
    · omega
    · exact ⟨p, hp⟩
  have hscreen : first.location.toNat < numCells := by rw [hfirst]; decide
  have hadd := mp1IoctlAdd_eq hp hscreen
  have hadd₂ := mp1IoctlAdd_eq (mp1Malloc_corner hp hfirst) hsecond
  refine ⟨rs, m, hrun, by rw [hadd], by rw [hadd₂], fun k => ?_⟩
  have hhead : ((m.mp1IoctlAdd first).2.mp1IoctlAdd second).2.mp1ListHead = some p := by
    rw [hadd₂]
    rfl
  have hself : ((m.mp1IoctlAdd first).2.mp1IoctlAdd second).2.next p = some p := by
    rw [hadd₂, Memory.next]
    dsimp only [Memory.mp1Poke]
    rw [Memory.setCell_self, hadd]
    rfl
  rw [Memory.mp1RtcTasklet, hhead]
  refine forEach_endless (P := fun m c => c = p ∧ m.next p = some p) ?_ ⟨rfl, hself⟩ k
  rintro m' c ⟨rfl, hc⟩
  rw [next_taskletTurn]
  exact ⟨c, hc, rfl, hc⟩

/-- Right after the start. -/
theorem corner_breaks_list_start : ∃ rs m, commands numCells [] (cleared fun _ => 0x20) =
    some (rs, m) ∧ (m.mp1IoctlAdd ⟨⟨0, 0x49, 0x4D, 7, 6, 0, 0⟩, none⟩).1 = 0 ∧
      ((m.mp1IoctlAdd ⟨⟨0, 0x49, 0x4D, 7, 6, 0, 0⟩, none⟩).2.mp1IoctlAdd mainRecord).1 = 0 ∧
      ∀ k, ((m.mp1IoctlAdd ⟨⟨0, 0x49, 0x4D, 7, 6, 0, 0⟩, none⟩).2.mp1IoctlAdd
        mainRecord).2.mp1RtcTasklet k = none :=
  corner_breaks_list _ [] (by simp) (by decide) _ mainRecord rfl (by decide) numCells le_rfl

end Fish

end WnajOS
