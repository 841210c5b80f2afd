import WnajOS.Fish.Frames
import WnajOS.Userland.Reading

/-!
# `fish`

`add_frames` reads two pictures character by character, both at once, and `main` lets the characters
blink, with the RTC as its clock.  Among any other work of the kernel the program ends, and the
commands that it gives to the device are those for the places of the two pictures, followed by the
ones of `main`.
-/

namespace WnajOS

namespace Userland

open Programs

/-! ### `fish.c` -/

/-- A command to the device, on the program's own memory.  Where it does not return the program
hangs. -/
def perform (n : ℕ) (c : Fish.Command) (m : Fish.Memory) : UserProgram Fish.Memory :=
  match Fish.command n c m with
  | none => .unfinished
  | some (_, m) => pure m

/-- `c0` and `eof0` of `add_frames`, or `c1` and `eof1`. -/
structure Reader where
  c : UInt8
  eof : Bool

/-- The next character of a picture, unless the line is over.  The end of the file is an end of
line as well. -/
def nextChar (fd : Int32) (r : Reader) : UserProgram Reader := do
  if r.c ≠ 10 then
    let (numBytes, buf) ← Program.ask (.read fd (fun _ => r.c) 1)
    if numBytes = 0 then return ⟨10, true⟩
    return ⟨buf 0, r.eof⟩
  return r

/-- The end of a row: a picture that is over is closed, also when it was closed before. -/
def endRow (fd : Int32) (r : Reader) : UserProgram Reader := do
  if r.eof then
    let _ ← returned (.close fd)
    return ⟨10, true⟩
  return ⟨0x30, false⟩

/-- The variables of the inner loop of `add_frames`. -/
structure RowState where
  col : ℕ
  r0 : Reader
  r1 : Reader
  mem : Fish.Memory

/-- A turn of the inner loop. -/
def placeTurn (n : ℕ) (user : Fish.Mp1BlinkStruct) (fd0 fd1 : Int32) (row : ℕ) (s : RowState) :
    UserProgram (RowState ⊕ RowState) := do
  let r0 ← nextChar fd0 s.r0
  let r1 ← nextChar fd1 s.r1
  if r0.c = 10 ∧ r1.c = 10 then return .inr ⟨s.col, r0, r1, s.mem⟩
  if (r0.c ≠ 32 ∧ r0.c ≠ 10) ∨ (r1.c ≠ 32 ∧ r1.c ≠ 10) then
    let c := (if r0.c = 10 then 32 else r0.c, if r1.c = 10 then 32 else r1.c)
    let mem ← perform n (.add (Fish.frameRecord user (row * 80 + s.col + 40) c)) s.mem
    return .inl ⟨s.col + 1, r0, r1, mem⟩
  return .inl ⟨s.col + 1, r0, r1, s.mem⟩

/-- The variables of the outer loop of `add_frames`. -/
structure FrameState where
  row : ℕ
  r0 : Reader
  r1 : Reader
  mem : Fish.Memory

/-- A turn of the outer loop. -/
def rowTurn (n turns : ℕ) (user : Fish.Mp1BlinkStruct) (fd0 fd1 : Int32) (s : FrameState) :
    UserProgram (FrameState ⊕ Fish.Memory) := do
  if s.r0.eof ∧ s.r1.eof then return .inr s.mem
  let s' ← Program.loop (placeTurn n user fd0 fd1 s.row) turns ⟨0, s.r0, s.r1, s.mem⟩
  let r0 ← endRow fd0 s'.r0
  let r1 ← endRow fd1 s'.r1
  return .inl ⟨s.row + 1, r0, r1, s'.mem⟩

/-- `add_frames`, with at most `turns` turns of each loop; `none` where it halts the program.  The
record on the stack is `user` at first. -/
def addFrames (n turns : ℕ) (user : Fish.Mp1BlinkStruct) (f0 f1 : Str) (m : Fish.Memory) :
    UserProgram (Option Fish.Memory) := do
  let fd0 ← returned (.openFile f0)
  if fd0 < 0 then return none
  let fd1 ← returned (.openFile f1)
  if fd1 < 0 then return none
  let m ← Program.loop (rowTurn n turns user fd0 fd1) turns ⟨0, ⟨0x30, false⟩, ⟨0x30, false⟩, m⟩
  return some m

/-- The loop of `main` that waits for a number of ticks of the RTC. -/
def waitTicks (n : ℕ) (rtcFd : Int32) : ℕ → Fish.Memory → UserProgram Fish.Memory
  | 0, m => return m
  | k + 1, m => do
    let _ ← returned (.read rtcFd noBuf 4)
    let m ← perform n .tasklet m
    waitTicks n rtcFd k m

/-- `blink_struct` of `main`; what is never stored to stays as it was in `user`. -/
def imRecord (user : Fish.Mp1BlinkStruct) : Fish.Mp1BlinkStruct :=
  { user with
    onChar := 0x49, offChar := 0x4D, onLength := 7, offLength := 6, location := 6 * 80 + 60 }

/-- The bytes of `ret_val` when the rate is set. -/
def rateBytes : Buf := fun i => if i = 0 then 32 else 0

/-- `main` behind `add_frames`. -/
def mainLoops (n : ℕ) (rtcFd : Int32) (user : Fish.Mp1BlinkStruct) (m : Fish.Memory) :
    UserProgram (Int32 × Fish.Memory) := do
  let _ ← returned (.write rtcFd rateBytes 4)
  let m ← waitTicks n rtcFd 100 m
  let m ← perform n (.add (imRecord user)) m
  let m ← waitTicks n rtcFd 100 m
  let m ← perform n (.sync ((40 : UInt32) <<< 16 ||| (6 * 80 + 60))) m
  let m ← waitTicks n rtcFd 100 m
  let m ← perform n (.remove (6 * 80 + 60)) m
  let m ← waitTicks n rtcFd 100 m
  let _ ← returned (.close rtcFd)
  return (0, m)

/-- `main`, from where `vidmap` has mapped the video memory. -/
def fish (n turns : ℕ) (user user' : Fish.Mp1BlinkStruct) (vmem : ℕ → UInt8) :
    UserProgram (Int32 × Fish.Memory) := do
  let rtcFd ← returned (.openFile (text "rtc"))
  let m := Fish.cleared vmem
  match ← addFrames n turns user (text "frame0.txt") (text "frame1.txt") m with
  | none => return (-1, m)
  | some m => mainLoops n rtcFd user' m

/-- The commands of `main` behind `add_frames`. -/
def mainCommands (user : Fish.Mp1BlinkStruct) : List Fish.Command :=
  List.replicate 100 .tasklet ++ (.add (imRecord user) :: (List.replicate 100 .tasklet ++
    (.sync ((40 : UInt32) <<< 16 ||| (6 * 80 + 60)) :: (List.replicate 100 .tasklet ++
      (.remove (6 * 80 + 60) :: List.replicate 100 .tasklet)))))

/-! ### Commands -/

section Commands

variable {img : Image} {o : Own} {n : ℕ} {m m' : Fish.Memory} {c : Fish.Command}
  {cs cs' : List Fish.Command} {rs : List (Fish.Reply Fish.Mp1BlinkStruct)}

/-- The commands of a list up to some place, and those behind it. -/
lemma commands_split (h : Fish.commands n (cs ++ cs') m = some (rs, m')) :
    ∃ rs₁ m₁ rs₂, Fish.commands n cs m = some (rs₁, m₁) ∧
      Fish.commands n cs' m₁ = some (rs₂, m') := by
  induction cs generalizing m rs with
  | nil => exact ⟨[], m, rs, rfl, h⟩
  | cons c cs ih =>
    rw [List.cons_append, Fish.commands] at h
    obtain ⟨⟨r, m₁⟩, hc, h⟩ := Option.bind_eq_some_iff.1 h
    obtain ⟨⟨rs', m₂⟩, hcs, h⟩ := Option.bind_eq_some_iff.1 h
    obtain ⟨rfl, rfl⟩ := Prod.mk.inj (Option.some.inj h)
    obtain ⟨rs₁, m₃, rs₂, h₁, h₂⟩ := ih hcs
    refine ⟨r :: rs₁, m₃, rs₂, ?_, h₂⟩
    rw [Fish.commands, hc]
    simp only [Option.bind_eq_bind, Option.bind_some, h₁]

lemma commands_cons (h : Fish.commands n (c :: cs) m = some (rs, m')) :
    ∃ r m₁ rs₁, Fish.command n c m = some (r, m₁) ∧
      Fish.commands n cs m₁ = some (rs₁, m') := by
  rw [Fish.commands] at h
  obtain ⟨⟨r, m₁⟩, hc, h⟩ := Option.bind_eq_some_iff.1 h
  obtain ⟨⟨rs₁, m₂⟩, hcs, h⟩ := Option.bind_eq_some_iff.1 h
  obtain ⟨rfl, rfl⟩ := Prod.mk.inj (Option.some.inj h)
  exact ⟨r, m₁, rs₁, hc, hcs⟩

/-- A command that returns. -/
lemma does_perform {r : Fish.Reply Fish.Mp1BlinkStruct} {Q : Fish.Memory → Own → Prop}
    (h : Fish.command n c m = some (r, m')) (hQ : Q m' o) : Does img (perform n c m) Q o := by
  rw [perform, h]
  exact hQ

/-- A read of the RTC. -/
lemma serve_rtcRead {fd nbytes : Int32} (h : OpenWith o fd .rtc) (hrate : o.rate ≠ 0)
    (hn : 0 ≤ nbytes) (buf : Buf) : o.serve img (.read fd buf nbytes) = some ((0, buf), o) := by
  rw [h.serve_read hn, Own.readFrom, h.ops]
  exact if_neg hrate

/-- **The loop of `main`** is as many turns of the tasklet. -/
lemma does_waitTicks {fd : Int32} (hfd : OpenWith o fd .rtc) (hrate : o.rate ≠ 0) {k : ℕ}
    (h : Fish.commands n (List.replicate k .tasklet) m = some (rs, m'))
    {Q : Fish.Memory → Own → Prop} (hQ : Q m' o) : Does img (waitTicks n fd k m) Q o := by
  induction k generalizing m rs with
  | zero =>
    obtain ⟨-, rfl⟩ := Prod.mk.inj (Option.some.inj h)
    exact hQ
  | succ k ih =>
    rw [List.replicate_succ] at h
    obtain ⟨r, m₁, rs₁, hc, hcs⟩ := commands_cons h
    rw [waitTicks]
    refine Program.wp_bind (does_returned (serve_rtcRead hfd hrate (by decide) noBuf) ?_)
    exact Program.wp_bind (does_perform hc (ih hcs))

end Commands

/-! ### The pictures -/

/-- Nothing but some descriptors has changed. -/
structure Besides (js : List ℕ) (o o' : Own) : Prop where
  fds : ∀ j ∉ js, o'.fds j = o.fds j
  rate : o'.rate = o.rate
  printed : o'.printed = o.printed

lemma Besides.refl (js : List ℕ) (o : Own) : Besides js o o := ⟨fun _ _ => rfl, rfl, rfl⟩

lemma Besides.trans {js : List ℕ} {o o' o'' : Own} (h : Besides js o o') (h' : Besides js o' o'') :
    Besides js o o'' :=
  ⟨fun j hj => (h'.fds j hj).trans (h.fds j hj), h'.rate.trans h.rate, h'.printed.trans h.printed⟩

lemma Besides.mono {js js' : List ℕ} {o o' : Own} (h : Besides js o o') (hjs : js ⊆ js') :
    Besides js' o o' :=
  ⟨fun j hj => h.fds j fun hin => hj (hjs hin), h.rate, h.printed⟩

lemma besides_advance (o : Own) (fd : Int32) (k : ℕ) :
    Besides [fdIndex fd] o (o.advance fd k) :=
  ⟨fun _ hj => Function.update_of_ne (fun heq => hj (List.mem_singleton.2 heq)) .., rfl, rfl⟩

/-- A picture within a row: `line` is left of its line, and `rest` are the lines below.  The line
is still being read, or its end was read, or the end of the file. -/
inductive InRow (img : Image) (o : Own) (fd : Int32) : Reader → Str → List Str → Prop
  | reading {c : UInt8} {t line : Str} {rest : List Str} (hc : c ≠ 10) (h : FileAt img o fd t)
      (ht : t.splitOn 10 = line :: rest) : InRow img o fd ⟨c, false⟩ line rest
  | ended {t : Str} (h : FileAt img o fd t) : InRow img o fd ⟨10, false⟩ [] (t.splitOn 10)
  | atEnd (h2 : 2 ≤ fd ∧ fd < 8) (hops : (o.fds (fdIndex fd)).fileOps = some .file) :
      InRow img o fd ⟨10, true⟩ [] []

/-- A picture between two rows. -/
inductive AtRow (img : Image) (o : Own) (fd : Int32) : Reader → List Str → Prop
  | more {t : Str} (h : FileAt img o fd t) : AtRow img o fd ⟨0x30, false⟩ (t.splitOn 10)
  | atEnd (h2 : 2 ≤ fd ∧ fd < 8) (hops : (o.fds (fdIndex fd)).fileOps = some .file) :
      AtRow img o fd ⟨10, true⟩ []

section Pictures

variable {img : Image} {o o' : Own} {fd : Int32} {r : Reader} {t line : Str} {rest ls : List Str}

lemma FileAt.congr (h : FileAt img o fd t)
    (heq : o'.fds (fdIndex fd) = o.fds (fdIndex fd)) : FileAt img o' fd t := by
  obtain ⟨⟨hrange, hops, hflags⟩, hinode, hreadable, hinside, hrest⟩ := h
  rw [← heq] at hops hflags hinode hreadable hinside hrest
  exact ⟨⟨hrange, hops, hflags⟩, hinode, hreadable, hinside, hrest⟩

lemma InRow.congr (h : InRow img o fd r line rest)
    (heq : o'.fds (fdIndex fd) = o.fds (fdIndex fd)) : InRow img o' fd r line rest := by
  cases h with
  | reading hc h ht => exact .reading hc (h.congr heq) ht
  | ended h => exact .ended (h.congr heq)
  | atEnd h2 hops => exact .atEnd h2 (heq ▸ hops)

lemma AtRow.congr (h : AtRow img o fd r ls) (heq : o'.fds (fdIndex fd) = o.fds (fdIndex fd)) :
    AtRow img o' fd r ls := by
  cases h with
  | more h => exact .more (h.congr heq)
  | atEnd h2 hops => exact .atEnd h2 (heq ▸ hops)

/-- A picture is over when no line is left. -/
lemma AtRow.eof_iff (h : AtRow img o fd r ls) : r.eof ↔ ls = [] := by
  cases h with
  | @more t h => exact iff_of_false (by simp) (List.splitOn_ne_nil 10 t)
  | atEnd => simp

/-- A row begins. -/
lemma AtRow.inRow (h : AtRow img o fd r ls) : InRow img o fd r (ls.headD []) ls.tail := by
  cases h with
  | @more t h =>
    obtain ⟨line, rest, ht⟩ := List.exists_cons_of_ne_nil (List.splitOn_ne_nil 10 t)
    rw [ht]
    exact .reading (by decide) h ht
  | atEnd h2 hops => exact .atEnd h2 hops

/-- **The next character.** -/
lemma does_nextChar (h : InRow img o fd r line rest) {Q : Reader → Own → Prop}
    (hQ : ∀ r' o', (line = [] ∧ r'.c = 10 ∨ ∃ c l, line = c :: l ∧ c ≠ 10 ∧ r'.c = c) →
      InRow img o' fd r' line.tail rest → Besides [fdIndex fd] o o' → Q r' o') :
    Does img (nextChar fd r) Q o := by
  rw [nextChar]
  cases h with
  | ended h => exact hQ _ _ (Or.inl ⟨rfl, rfl⟩) (.ended h) (Besides.refl ..)
  | atEnd h2 hops => exact hQ _ _ (Or.inl ⟨rfl, rfl⟩) (.atEnd h2 hops) (Besides.refl ..)
  | @reading c t line rest hc h ht =>
    have hread := h.read (by decide : (0 : Int32) < 1) fun _ => c
    have hone : (1 : Int32).toInt.toNat = 1 := by decide
    rw [hone] at hread
    simp only [ne_eq, hc, not_false_eq_true, if_true]
    refine Program.wp_bind (does_ask hread ?_)
    cases t with
    | nil =>
      rw [List.splitOn_nil] at ht
      obtain ⟨rfl, rfl⟩ := List.cons.inj ht
      exact hQ _ _ (Or.inl ⟨rfl, rfl⟩) (.atEnd h.range (h.toOpenWith.advance _).ops)
        (besides_advance ..)
    | cons x t =>
      have hnext := h.advance (n := 1) (by simp)
      have hx : store (fun _ => c) [x] 0 = x := rfl
      rw [List.take_succ_cons, List.take_zero]
      simp only [List.length_singleton, hx, show (Int32.ofNat 1 = 0) = False from by decide,
        if_false]
      rw [List.splitOn_cons_eq_if_modifyHead] at ht
      by_cases hx10 : x = 10
      · subst hx10
        rw [if_pos (by decide)] at ht
        obtain ⟨rfl, rfl⟩ := List.cons.inj ht
        exact hQ _ _ (Or.inl ⟨rfl, rfl⟩) (.ended hnext) (besides_advance ..)
      · rw [if_neg (by simpa using hx10)] at ht
        obtain ⟨line', rest', ht'⟩ := List.exists_cons_of_ne_nil (List.splitOn_ne_nil 10 t)
        rw [ht', List.modifyHead_cons] at ht
        obtain ⟨rfl, rfl⟩ := List.cons.inj ht
        exact hQ _ _ (Or.inr ⟨x, line', rfl, hx10, rfl⟩) (.reading hx10 hnext ht')
          (besides_advance ..)

/-- **The end of a row.** -/
lemma does_endRow (h : InRow img o fd r [] rest) (hc : r.c = 10) {Q : Reader → Own → Prop}
    (hQ : ∀ r' o', AtRow img o' fd r' rest → Besides [fdIndex fd] o o' → Q r' o') :
    Does img (endRow fd r) Q o := by
  rw [endRow]
  cases h with
  | reading hne => exact absurd hc hne
  | ended h => exact hQ _ _ (.more h) (Besides.refl ..)
  | atEnd h2 hops =>
    have hfd2 : ¬fd < 2 := Int32.not_lt.2 h2.1
    have hfd8 : ¬fd ≥ 8 := Int32.not_le.2 h2.2
    by_cases hflags : (o.fds (fdIndex fd)).flags = 0
    · have hserve : o.serve img (.close fd) = some ((-1, noBuf), o) := by
        rw [Own.serve, if_pos (Or.inr (Or.inr hflags))]
      refine Program.wp_bind (does_returned hserve ?_)
      exact hQ _ _ (.atEnd h2 hops) (Besides.refl ..)
    · have hserve : o.serve img (.close fd) = some ((0, noBuf), { o with
          fds := Function.update o.fds (fdIndex fd) (closedEntry (o.fds (fdIndex fd))) }) := by
        rw [Own.serve, if_neg (not_or.2 ⟨hfd2, not_or.2 ⟨hfd8, hflags⟩⟩), hops]
        rfl
      refine Program.wp_bind (does_returned hserve (hQ _ _ (.atEnd h2 ?_) ⟨fun j hj => ?_, rfl, rfl⟩))
      · dsimp only
        rw [Function.update_self]
        exact hops
      · exact Function.update_of_ne (fun heq => hj (List.mem_singleton.2 heq)) ..

end Pictures

/-! ### The loops -/

section Loops

variable {img : Image} {o : Own} {fd0 fd1 : Int32} {r0 r1 : Reader} {l0 l1 : Str}
  {rest0 rest1 ls0 ls1 : List Str} {n row : ℕ} {m m' : Fish.Memory} {user : Fish.Mp1BlinkStruct}

/-- The character that a picture has in a place. -/
lemma headD_of_read {l : Str} {r : Reader}
    (h : l = [] ∧ r.c = 10 ∨ ∃ c t, l = c :: t ∧ c ≠ 10 ∧ r.c = c) :
    (if r.c = 10 then 32 else r.c) = l.headD 32 ∧ (r.c = 10 ↔ l = []) := by
  rcases h with ⟨rfl, hc⟩ | ⟨c, t, rfl, hne, hc⟩
  · rw [if_pos hc]
    exact ⟨rfl, iff_of_true hc rfl⟩
  · rw [hc, if_neg hne]
    exact ⟨rfl, iff_of_false hne (List.cons_ne_nil _ _)⟩

/-- The test for a place that is not blank. -/
lemma place_test {c0 c1 : UInt8} : ((c0 ≠ 32 ∧ c0 ≠ 10) ∨ (c1 ≠ 32 ∧ c1 ≠ 10)) ↔
    (if c0 = 10 then (32 : UInt8) else c0, if c1 = 10 then (32 : UInt8) else c1) ≠ (32, 32) := by
  have hone (c : UInt8) : (c ≠ 32 ∧ c ≠ 10) ↔ ¬(if c = 10 then 32 else c) = 32 := by
    split
    · rename_i h
      simp [h]
    · rename_i h
      simp [h]
  refine (or_congr (hone c0) (hone c1)).trans ?_
  rw [ne_eq, Prod.mk.injEq, not_and_or]

/-- What both pictures have in the places of a row becomes commands. -/
lemma does_placeLoop (hne : fdIndex fd0 ≠ fdIndex fd1) (h0 : InRow img o fd0 r0 l0 rest0)
    (h1 : InRow img o fd1 r1 l1 rest1) {turns : ℕ} (hturns : max l0.length l1.length < turns)
    {rs : List (Fish.Reply Fish.Mp1BlinkStruct)}
    (hm : Fish.commands n (Fish.addPairs user (row * 80 + 40) (Fish.framePairs l0 l1)) m =
      some (rs, m')) :
    Does img (Program.loop (placeTurn n user fd0 fd1 row) turns ⟨0, r0, r1, m⟩)
      (fun s o' => s.mem = m' ∧ s.r0.c = 10 ∧ s.r1.c = 10 ∧ InRow img o' fd0 s.r0 [] rest0 ∧
        InRow img o' fd1 s.r1 [] rest1 ∧ Besides [fdIndex fd0, fdIndex fd1] o o') o := by
  refine Program.wp_loop (fun k s o' => ∃ l0 l1 rs, InRow img o' fd0 s.r0 l0 rest0 ∧
      InRow img o' fd1 s.r1 l1 rest1 ∧ max l0.length l1.length = k ∧
      Fish.commands n (Fish.addPairs user (row * 80 + 40 + s.col) (Fish.framePairs l0 l1)) s.mem =
        some (rs, m') ∧ Besides [fdIndex fd0, fdIndex fd1] o o') ?_ hturns
    ⟨l0, l1, rs, h0, h1, rfl, hm, Besides.refl ..⟩
  rintro k s o' ⟨l0, l1, rs, h0, h1, hk, hm, hbesides⟩
  refine Program.wp_bind (does_nextChar h0 fun r0' o₁ hr0 h0' hb0 => ?_)
  have h1' := h1.congr (hb0.fds _ (by simpa using Ne.symm hne))
  refine Program.wp_bind (does_nextChar h1' fun r1' o₂ hr1 h1'' hb1 => ?_)
  have h0'' := h0'.congr (hb1.fds _ (by simpa using hne))
  have hbesides' : Besides [fdIndex fd0, fdIndex fd1] o o₂ :=
    (hbesides.trans (hb0.mono (by simp))).trans (hb1.mono (by simp))
  obtain ⟨hhead0, hnil0⟩ := headD_of_read hr0
  obtain ⟨hhead1, hnil1⟩ := headD_of_read hr1
  by_cases hend : l0 = [] ∧ l1 = []
  · -- the end of the row
    obtain ⟨rfl, rfl⟩ := hend
    rw [if_pos ⟨hnil0.2 rfl, hnil1.2 rfl⟩]
    obtain ⟨-, hmem⟩ := Prod.mk.inj (Option.some.inj hm)
    exact ⟨hmem, hnil0.2 rfl, hnil1.2 rfl, h0'', h1'', hbesides'⟩
  · have hsome : l0 ≠ [] ∨ l1 ≠ [] := not_and_or.1 hend
    rw [if_neg (by rw [hnil0, hnil1]; exact hend)]
    rw [Fish.framePairs_step hsome, Fish.addPairs, Nat.add_assoc] at hm
    have hless : max l0.tail.length l1.tail.length < k := by
      rw [List.length_tail, List.length_tail, ← hk]
      rcases hsome with h | h
      · have hpos := List.length_pos_iff.2 h
        omega
      · have hpos := List.length_pos_iff.2 h
        omega
    simp only [place_test, hhead0, hhead1]
    by_cases hblank : (l0.headD 32, l1.headD 32) = ((32, 32) : UInt8 × UInt8)
    · rw [if_pos hblank] at hm
      rw [if_neg (not_not.2 hblank)]
      exact ⟨_, hless, l0.tail, l1.tail, rs, h0'', h1'', rfl, hm, hbesides'⟩
    · rw [if_neg hblank] at hm
      obtain ⟨r, m₁, rs₁, hc, hcs⟩ := commands_cons hm
      rw [if_pos hblank]
      have hplace : row * 80 + s.col + 40 = row * 80 + 40 + s.col := Nat.add_right_comm ..
      rw [hplace]
      refine Program.wp_bind (does_perform hc ?_)
      exact ⟨_, hless, l0.tail, l1.tail, rs₁, h0'', h1'', rfl, hcs, hbesides'⟩

/-- What the pictures have in the rows becomes commands. -/
lemma does_rowLoop (hne : fdIndex fd0 ≠ fdIndex fd1) (h0 : AtRow img o fd0 r0 ls0)
    (h1 : AtRow img o fd1 r1 ls1) {turns : ℕ} (hturns : max ls0.length ls1.length < turns)
    (hwidth0 : ∀ l ∈ ls0, l.length < turns) (hwidth1 : ∀ l ∈ ls1, l.length < turns)
    {rs : List (Fish.Reply Fish.Mp1BlinkStruct)}
    (hm : Fish.commands n (Fish.addRows user 0 (Fish.frameLines ls0 ls1)) m = some (rs, m')) :
    Does img (Program.loop (rowTurn n turns user fd0 fd1) turns ⟨0, r0, r1, m⟩)
      (fun mem o' => mem = m' ∧ Besides [fdIndex fd0, fdIndex fd1] o o') o := by
  refine Program.wp_loop (fun k s o' => ∃ ls0 ls1 rs, AtRow img o' fd0 s.r0 ls0 ∧
      AtRow img o' fd1 s.r1 ls1 ∧ max ls0.length ls1.length = k ∧
      (∀ l ∈ ls0, l.length < turns) ∧ (∀ l ∈ ls1, l.length < turns) ∧
      Fish.commands n (Fish.addRows user s.row (Fish.frameLines ls0 ls1)) s.mem = some (rs, m') ∧
      Besides [fdIndex fd0, fdIndex fd1] o o') ?_ hturns
    ⟨ls0, ls1, rs, h0, h1, rfl, hwidth0, hwidth1, hm, Besides.refl ..⟩
  rintro k s o' ⟨ls0, ls1, rs, h0, h1, hk, hwidth0, hwidth1, hm, hbesides⟩
  rw [rowTurn]
  by_cases hend : ls0 = [] ∧ ls1 = []
  · rw [if_pos ⟨h0.eof_iff.2 hend.1, h1.eof_iff.2 hend.2⟩]
    obtain ⟨rfl, rfl⟩ := hend
    obtain ⟨-, hmem⟩ := Prod.mk.inj (Option.some.inj hm)
    exact ⟨hmem, hbesides⟩
  · have hsome : ls0 ≠ [] ∨ ls1 ≠ [] := not_and_or.1 hend
    rw [if_neg (by rw [h0.eof_iff, h1.eof_iff]; exact hend)]
    rw [Fish.frameLines_step hsome, Fish.addRows] at hm
    obtain ⟨rs₁, m₁, rs₂, hfirst, hrest⟩ := commands_split hm
    have hlen {ls : List Str} (h : ∀ l ∈ ls, l.length < turns) : (ls.headD []).length < turns := by
      cases ls with
      | nil => exact Nat.zero_lt_of_lt hturns
      | cons l ls => exact h l List.mem_cons_self
    have hless : max ls0.tail.length ls1.tail.length < k := by
      rw [List.length_tail, List.length_tail, ← hk]
      rcases hsome with h | h
      · have hpos := List.length_pos_iff.2 h
        omega
      · have hpos := List.length_pos_iff.2 h
        omega
    refine Program.wp_bind (Program.wp_mono ?_ (does_placeLoop hne h0.inRow h1.inRow
      (max_lt (hlen hwidth0) (hlen hwidth1)) hfirst))
    rintro s' o₁ ⟨rfl, hc0, hc1, h0', h1', hb⟩
    refine Program.wp_bind (does_endRow h0' hc0 fun r0' o₂ hat0 hb0 => ?_)
    have h1'' := h1'.congr (hb0.fds _ (by simpa using Ne.symm hne))
    refine Program.wp_bind (does_endRow h1'' hc1 fun r1' o₃ hat1 hb1 => ?_)
    refine ⟨_, hless, ls0.tail, ls1.tail, rs₂, hat0.congr (hb1.fds _ (by simpa using hne)), hat1,
      rfl, fun l hl => hwidth0 l (List.mem_of_mem_tail hl),
      fun l hl => hwidth1 l (List.mem_of_mem_tail hl), hrest, ?_⟩
    exact ((hbesides.trans hb).trans (hb0.mono (by simp))).trans (hb1.mono (by simp))

end Loops

/-! ### The program -/

section Main

variable {img : Image} {o : Own} {i j k n : ℕ} {m m' : Fish.Memory} {d d0 d1 : DirEntry}
  {user : Fish.Mp1BlinkStruct}

lemma OpenWith.congr {o' : Own} {fd : Int32} {driver : Driver} (h : OpenWith o fd driver)
    (heq : o'.fds (fdIndex fd) = o.fds (fdIndex fd)) : OpenWith o' fd driver :=
  ⟨h.range, heq ▸ h.ops, heq ▸ h.flags⟩

/-- The next free descriptor is none of those in use. -/
lemma Own.Room.ne (h : o.Room j) (hi : (o.fds i).flags ≠ 0) : i ≠ j := by
  rintro rfl
  obtain ⟨-, -, hflags, -⟩ := (vacantFrom_spec _ 7 0).1 i h.vacant
  exact hi hflags

lemma flags_opened {driver : Driver} : ((o.opened i d driver).fds i).flags ≠ 0 := by
  rw [Own.opened]
  dsimp only
  rw [Function.update_self]
  exact (by decide : (1 : UInt32) ≠ 0)

lemma Own.Room.not_neg (h : o.Room i) : ¬Int32.ofNat i < 0 := by
  intro hneg
  have h2 := Int32.le_iff_toInt_le.1 h.fd.1
  have h0 := Int32.lt_iff_toInt_lt.1 hneg
  rw [show (2 : Int32).toInt = 2 from rfl] at h2
  rw [Int32.toInt_zero] at h0
  omega

/-- **`add_frames`** gives the commands for the places of both pictures. -/
lemma does_addFrames {f0 f1 : Str} (hroom0 : o.Room j) (hroom1 : (o.opened j d0 .file).Room k)
    (hname0 : readDentryByName img f0 = some d0) (hfile0 : driverOf d0.fileType = some .file)
    (hok0 : EntryOk img d0) (hname1 : readDentryByName img f1 = some d1)
    (hfile1 : driverOf d1.fileType = some .file) (hok1 : EntryOk img d1)
    (hpic0 : Fish.Picture (contents img (img.inodes d0.inodeNum.toNat)))
    (hpic1 : Fish.Picture (contents img (img.inodes d1.inodeNum.toNat))) {turns : ℕ}
    (hturns : 818 < turns) {rs : List (Fish.Reply Fish.Mp1BlinkStruct)}
    (hm : Fish.commands n (Fish.addRows user 0 (Fish.frameRows
      (contents img (img.inodes d0.inodeNum.toNat)) (contents img (img.inodes d1.inodeNum.toNat))))
        m = some (rs, m')) :
    Does img (addFrames n turns user f0 f1 m)
      (fun r o' => r = some m' ∧ Besides [j, k] o o') o := by
  have hjk : j ≠ k := hroom1.ne flags_opened
  obtain ⟨-, -, hindex0⟩ := hroom0.fd
  obtain ⟨-, -, hindex1⟩ := hroom1.fd
  rw [addFrames]
  refine Program.wp_bind (does_returned (serve_opened hroom0 hname0 hfile0) ?_)
  simp only [hroom0.not_neg, if_false]
  refine Program.wp_bind (does_returned (serve_opened hroom1 hname1 hfile1) ?_)
  simp only [hroom1.not_neg, if_false]
  have hat0 : FileAt img ((o.opened j d0 .file).opened k d1 .file) (Int32.ofNat j)
      (contents img (img.inodes d0.inodeNum.toNat)) :=
    (hroom0.fileAt hok0 hfile0).congr (by rw [hindex0]; exact Function.update_of_ne hjk ..)
  have hat1 := hroom1.fileAt hok1 hfile1
  have hwidth {t : Str} (h : Fish.Picture t) : ∀ l ∈ t.splitOn 10, l.length < turns :=
    fun l hl => (h.width l hl).trans_lt (by omega)
  have hheight0 := hpic0.height
  have hheight1 := hpic1.height
  refine Program.wp_bind (Program.wp_mono ?_ (does_rowLoop (by rw [hindex0, hindex1]; exact hjk)
    (.more hat0) (.more hat1) (by omega) (hwidth hpic0) (hwidth hpic1) hm))
  rintro mem o' ⟨rfl, hb⟩
  rw [hindex0, hindex1] at hb
  have hopened : Besides [j, k] o ((o.opened j d0 .file).opened k d1 .file) := by
    refine ⟨fun x hx => ?_, rfl, rfl⟩
    rw [List.mem_cons, List.mem_singleton, not_or] at hx
    exact (Function.update_of_ne hx.2 ..).trans (Function.update_of_ne hx.1 ..)
  exact ⟨rfl, hopened.trans hb⟩

/-- **`main` behind `add_frames`.** -/
lemma does_mainLoops {rtcFd : Int32} (hfd : OpenWith o rtcFd .rtc)
    {rs : List (Fish.Reply Fish.Mp1BlinkStruct)}
    (hm : Fish.commands n (mainCommands user) m = some (rs, m')) :
    Does img (mainLoops n rtcFd user m)
      (fun r o' => r = (0, m') ∧ o'.printed = o.printed) o := by
  obtain ⟨_, m₁, _, h₁, hm⟩ := commands_split hm
  obtain ⟨_, m₂, _, h₂, hm⟩ := commands_cons hm
  obtain ⟨_, m₃, _, h₃, hm⟩ := commands_split hm
  obtain ⟨_, m₄, _, h₄, hm⟩ := commands_cons hm
  obtain ⟨_, m₅, _, h₅, hm⟩ := commands_split hm
  obtain ⟨_, m₆, _, h₆, h₇⟩ := commands_cons hm
  have hopen : ¬o.Refused rtcFd 4 := by
    rintro (hlt | hge | hneg | hflags)
    · have h2 := Int32.le_iff_toInt_le.1 hfd.range.1
      have h0 := Int32.lt_iff_toInt_lt.1 hlt
      rw [show (2 : Int32).toInt = 2 from rfl] at h2
      rw [Int32.toInt_zero] at h0
      omega
    · exact Int32.not_lt.2 hge hfd.range.2
    · exact absurd hneg (by decide)
    · exact hfd.flags hflags
  have hwrite : o.serve img (.write rtcFd rateBytes 4) =
      some ((0, rateBytes), { o with rate := 32 }) := by
    rw [Own.serve, if_neg hopen, Own.writeTo, hfd.ops]
    rfl
  have hfd' : OpenWith { o with rate := 32 } rtcFd .rtc := ⟨hfd.range, hfd.ops, hfd.flags⟩
  have hrate : ({ o with rate := 32 } : Own).rate ≠ 0 := (by decide : (32 : Int32) ≠ 0)
  have hclose : ({ o with rate := 32 } : Own).serve img (.close rtcFd) = some ((0, noBuf),
      { o with
        fds := Function.update o.fds (fdIndex rtcFd) (closedEntry (o.fds (fdIndex rtcFd)))
        rate := 32 }) := by
    rw [Own.serve, if_neg, hfd'.ops]
    · rfl
    · exact not_or.2 ⟨Int32.not_lt.2 hfd.range.1,
        not_or.2 ⟨Int32.not_le.2 hfd.range.2, hfd.flags⟩⟩
  rw [mainLoops]
  refine Program.wp_bind (does_returned hwrite ?_)
  refine Program.wp_bind (does_waitTicks hfd' hrate h₁ ?_)
  refine Program.wp_bind (does_perform h₂ ?_)
  refine Program.wp_bind (does_waitTicks hfd' hrate h₃ ?_)
  refine Program.wp_bind (does_perform h₄ ?_)
  refine Program.wp_bind (does_waitTicks hfd' hrate h₅ ?_)
  refine Program.wp_bind (does_perform h₆ ?_)
  refine Program.wp_bind (does_waitTicks hfd' hrate h₇ ?_)
  exact Program.wp_bind (does_returned hclose ⟨rfl, rfl⟩)

end Main

section Shown

variable {row col : ℕ}

lemma ticks_mainCommands (user : Fish.Mp1BlinkStruct) :
    Fish.ticks (mainCommands user) = 400 := by
  have hreplicate (k : ℕ) : Fish.ticks (List.replicate k .tasklet) = k := by
    induction k with
    | zero => rfl
    | succ k ih => rw [List.replicate_succ, Fish.ticks, ih]
  have hhundred := hreplicate 100
  rw [mainCommands]
  generalize List.replicate 100 Fish.Command.tasklet = cs at hhundred ⊢
  rw [Fish.ticks_append, hhundred]
  change 100 + Fish.ticks (cs ++ _) = 400
  rw [Fish.ticks_append, hhundred]
  change 100 + (100 + Fish.ticks (cs ++ _)) = 400
  rw [Fish.ticks_append, hhundred]
  change 100 + (100 + (100 + Fish.ticks cs)) = 400
  rw [hhundred]

/-- What the commands of `main` are. -/
lemma mem_mainCommands {user : Fish.Mp1BlinkStruct} {c : Fish.Command} (h : c ∈ mainCommands user) :
    c = .tasklet ∨ c = .add (imRecord user) ∨ c = .sync ((40 : UInt32) <<< 16 ||| (6 * 80 + 60)) ∨
      c = .remove (6 * 80 + 60) := by
  simp only [mainCommands, List.mem_append, List.mem_cons, List.mem_replicate] at h
  tauto

lemma offCorner_mainCommands (user : Fish.Mp1BlinkStruct) :
    ∀ c ∈ mainCommands user, c.OffCorner := by
  intro c hc
  rcases mem_mainCommands hc with rfl | rfl | rfl | rfl
  · trivial
  · exact (by decide : (6 * 80 + 60 : UInt16) ≠ 0)
  · trivial
  · trivial

/-- `main` does nothing but at one place. -/
lemma spares_mainCommands (user : Fish.Mp1BlinkStruct) {location : UInt16}
    (h : location ≠ 6 * 80 + 60) : ∀ c ∈ mainCommands user, c.Spares location := by
  have hsync : ((40 : UInt32) <<< 16 ||| (6 * 80 + 60)) &&& 0xFFFF = 540 := by decide
  have hremove : (6 * 80 + 60 : UInt32).toUInt16 = 540 := by decide
  intro c hc
  rcases mem_mainCommands hc with rfl | rfl | rfl | rfl
  · trivial
  · exact h.symm
  · rw [Fish.Command.Spares, hsync]
    exact h.symm
  · rw [Fish.Command.Spares, hremove]
    exact h.symm

end Shown

/-- **`fish` shows its pictures.**  Among any other work of the kernel it ends and has printed
nothing; the commands that it has given to the device are those for the places of both pictures and
those of `main`.  In the end each place of the pictures, but for the one that `main` uses itself,
shows the first picture. -/
theorem fish_shows_pictures (img : Image) (s : Session) (o : Own) (hs : Owns s o) (i j k : ℕ)
    (d d0 d1 : DirEntry) (hname : readDentryByName img (text "rtc") = some d)
    (hd : driverOf d.fileType = some .rtc)
    (hname0 : readDentryByName img (text "frame0.txt") = some d0)
    (hd0 : driverOf d0.fileType = some .file) (hok0 : EntryOk img d0)
    (hname1 : readDentryByName img (text "frame1.txt") = some d1)
    (hd1 : driverOf d1.fileType = some .file) (hok1 : EntryOk img d1)
    (hpic0 : Fish.Picture (contents img (img.inodes d0.inodeNum.toNat)))
    (hpic1 : Fish.Picture (contents img (img.inodes d1.inodeNum.toNat)))
    (hroom : o.Room i) (hroom0 : (o.opened i d .rtc).Room j)
    (hroom1 : ((o.opened i d .rtc).opened j d0 .file).Room k) (n turns : ℕ)
    (hn : Fish.numCells ≤ n) (hturns : 818 < turns) (user user' : Fish.Mp1BlinkStruct)
    (vmem : ℕ → UInt8) (work : ℕ → Session → Session) (hwork : ∀ i s, Undisturbed s (work i s)) :
    ∃ m t rs, Program.run (Session.serve img) (fish n turns user user' vmem) work s =
        some ((0, m), t) ∧ t.printed = s.printed ∧
      Fish.commands n (Fish.addRows user 0 (Fish.frameRows
          (contents img (img.inodes d0.inodeNum.toNat))
          (contents img (img.inodes d1.inodeNum.toNat))) ++ mainCommands user')
        (Fish.cleared vmem) = some (rs, m) ∧
      ∀ row col, col < 80 → Fish.placeAt row col < Fish.numCells →
        Fish.placeAt row col ≠ 6 * 80 + 60 →
        (Fish.pictureAt (contents img (img.inodes d0.inodeNum.toNat)) row col ≠ 32 ∨
          Fish.pictureAt (contents img (img.inodes d1.inodeNum.toNat)) row col ≠ 32) →
        m.vmem (Fish.placeAt row col * 2) =
          Fish.pictureAt (contents img (img.inodes d0.inodeNum.toNat)) row col := by
  generalize ht0 : contents img (img.inodes d0.inodeNum.toNat) = t0 at hpic0 ⊢
  generalize ht1 : contents img (img.inodes d1.inodeNum.toNat) = t1 at hpic1 ⊢
  have hcorner : ∀ c ∈ Fish.addRows user 0 (Fish.frameRows t0 t1) ++ mainCommands user',
      c.OffCorner := by
    intro c hc
    rcases List.mem_append.1 hc with hc | hc
    · exact Fish.offCorner_addRows user hpic0 hpic1 c hc
    · exact offCorner_mainCommands user' c hc
  obtain ⟨rs, m, ps, hcommands, -, hm⟩ := (Fish.represents_cleared vmem).commands hn hcorner
  obtain ⟨rs₁, m₁, rs₂, hframes, hmain⟩ := commands_split hcommands
  have hfish : Does img (fish n turns user user' vmem)
      (fun r o' => r = (0, m) ∧ o'.printed = o.printed) o := by
    rw [fish]
    refine Program.wp_bind (does_returned (serve_opened hroom hname hd) ?_)
    refine Program.wp_bind (Program.wp_mono ?_ (does_addFrames hroom0 hroom1 hname0 hd0 hok0
      hname1 hd1 hok1 (ht0 ▸ hpic0) (ht1 ▸ hpic1) hturns (by rw [ht0, ht1]; exact hframes)))
    rintro r o' ⟨rfl, hb⟩
    obtain ⟨-, -, hindex⟩ := hroom.fd
    have hsame : o'.fds (fdIndex (Int32.ofNat i)) =
        (o.opened i d .rtc).fds (fdIndex (Int32.ofNat i)) := by
      rw [hindex]
      have hij : i ≠ j := hroom0.ne flags_opened
      have hik : i ≠ k := by
        refine hroom1.ne ?_
        rw [Own.opened]
        dsimp only
        rw [Function.update_of_ne hij]
        exact flags_opened
      exact hb.fds i (by simp [hij, hik])
    have hopen := (hroom.openWith d .rtc).1.congr hsame
    exact Program.wp_mono (fun r o'' h => ⟨h.1, h.2.trans hb.printed⟩)
      (does_mainLoops hopen hmain)
  obtain ⟨r, t, hrun, o', howns, rfl, hprinted⟩ := hfish.run hs hwork
  refine ⟨m, t, rs, hrun, ?_, hcommands, fun row col hcol hscreen hmainPlace hne => ?_⟩
  · rw [howns.printed, hprinted, hs.printed]
  · have hloc : UInt16.ofNat (Fish.placeAt row col) ≠ 6 * 80 + 60 := by
      intro heq
      have hnat := congrArg UInt16.toNat heq
      rw [UInt16.toNat_ofNat_of_lt' (lt_trans hscreen (by decide))] at hnat
      exact hmainPlace hnat
    rw [hm.vmem, Fish.shown_place vmem user hpic0 hpic1 hcol hscreen hne
      (spares_mainCommands user' hloc), ticks_mainCommands]
    rfl

/-- The names of the pictures. -/
def frameName (c : UInt8) : Str := [102, 114, 97, 109, 101, c, 46, 116, 120, 116]

/-- An image with two pictures. -/
def pictureImage : Image where
  numDirEntries := 3
  numInodes := 2
  numDataBlks := 2
  dirEntries i := [sampleEntry rtcName length_rtcName 0 0, sampleEntry (frameName 48) (by decide) 2 0
    ].getD i (sampleEntry (frameName 49) (by decide) 2 1)
  inodes i := if i = 0 then ⟨4, fun _ => 0⟩ else ⟨9, fun _ => 1⟩
  blocks b i := (if b = 0 then Fish.fishOpen else Fish.fishClosed).getD i 0

lemma picture_open : contents pictureImage (pictureImage.inodes 0) = Fish.fishOpen := by
  decide +kernel

lemma picture_closed : contents pictureImage (pictureImage.inodes 1) = Fish.fishClosed := by
  decide +kernel

lemma pictureImage_ok {d : DirEntry} (hfile : driverOf d.fileType = some .file)
    (hd : d.inodeNum < 2) : EntryOk pictureImage d := by
  have hblock (ino j : ℕ) : (pictureImage.inodes ino).dataBlocks j < 2 := by
    rw [pictureImage]
    dsimp only
    split
    · exact (by decide : (0 : UInt32) < 2)
    · exact (by decide : (1 : UInt32) < 2)
  have hlen (ino : ℕ) : (pictureImage.inodes ino).length.toNat ≤ inodeDataBlockNum * dataBlkSize := by
    rw [pictureImage]
    dsimp only
    split
    · exact (by decide : 4 ≤ inodeDataBlockNum * dataBlkSize)
    · exact (by decide : 9 ≤ inodeDataBlockNum * dataBlkSize)
  refine ⟨hfile ▸ rfl, fun _ => ⟨hd, ⟨hlen _, fun j _ => hblock _ j⟩,
    BlockOk.passes (hblock _ _)⟩, fun h => ?_⟩
  rw [hfile] at h
  exact absurd h (by decide)

/-- The small fish, in the end with its mouth open. -/
theorem fish_shows_pictures_open : ∃ m t, Program.run (Session.serve pictureImage)
      (fish 2000 900 Fish.mainRecord Fish.mainRecord fun _ => 32) (fun _ s => s)
        (sampleSession []) = some ((0, m), t) ∧ t.printed = [] ∧
      m.vmem (Fish.placeAt 1 0 * 2) = 0x3C ∧ m.vmem (Fish.placeAt 0 3 * 2) = 32 := by
  obtain ⟨m, t, rs, hrun, hprinted, -, hshown⟩ := fish_shows_pictures pictureImage
    (sampleSession []) (sampleOwn []) (sample_owns List.not_mem_nil) 2 3 4
    (pictureImage.dirEntries 0) (pictureImage.dirEntries 1) (pictureImage.dirEntries 2) rfl
    (by decide) rfl (by decide) (pictureImage_ok (by decide) (by decide)) rfl (by decide)
    (pictureImage_ok (by decide) (by decide))
    (picture_open.symm ▸ ⟨by rw [Fish.splitOn_fishOpen]; simp, by rw [Fish.splitOn_fishOpen]; simp⟩)
    (picture_closed.symm ▸
      ⟨by rw [Fish.splitOn_fishClosed]; simp, by rw [Fish.splitOn_fishClosed]; simp⟩)
    ⟨by decide, ⟨rfl, by decide⟩, by decide⟩ ⟨by decide, ⟨rfl, by decide⟩, by decide⟩
    ⟨by decide, ⟨rfl, by decide⟩, by decide⟩ 2000 900 (by decide) (by decide) Fish.mainRecord
    Fish.mainRecord (fun _ => 32) (fun _ s => s) fun _ s => Undisturbed.refl s
  have hopen : contents pictureImage (pictureImage.inodes
      (pictureImage.dirEntries 1).inodeNum.toNat) = Fish.fishOpen := picture_open
  have hclosed : contents pictureImage (pictureImage.inodes
      (pictureImage.dirEntries 2).inodeNum.toNat) = Fish.fishClosed := picture_closed
  rw [hopen, hclosed] at hshown
  refine ⟨m, t, hrun, hprinted, ?_, ?_⟩
  · exact (hshown 1 0 (by decide) (by decide) (by decide) (by decide)).trans (by decide)
  · exact (hshown 0 3 (by decide) (by decide) (by decide) (by decide)).trans (by decide)

end Userland

end WnajOS
