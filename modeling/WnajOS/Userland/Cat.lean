import WnajOS.Arguments
import WnajOS.Userland.Reading

/-!
# `cat` and `ls`

`cat` copies what it reads from an entry of the directory to its terminal, `ls` the names of the
directory, a line each.  Among any other work of the kernel that leaves a program's own state alone,
they end and have printed exactly that.
-/

namespace WnajOS

namespace Userland

open Programs

/-! ### `ece391cat.c` -/

/-- The loop of `main`. -/
def catTurn (fd : Int32) (buf : Buf) : UserProgram (Buf ⊕ Int32) := do
  let (cnt, buf) ← Program.ask (.read fd buf 1024)
  if cnt = 0 then return .inr 0
  if cnt = -1 then
    fdputs 1 (text "file read failed\n")
    return .inr 3
  let ret ← returned (.write 1 buf cnt)
  if ret = -1 then return .inr 3
  return .inl buf

/-- `main`, with at most `turns` turns of its loop.  `buf` is the array as it is at first. -/
def cat (turns : ℕ) (buf : Buf) : UserProgram Int32 := do
  let (ret, buf) ← Program.ask (.getargs buf 1024)
  if ret ≠ 0 then
    fdputs 1 (text "could not read arguments\n")
    return 3
  let fd ← returned (.openFile (strAt buf 1024 0))
  if fd = -1 then
    fdputs 1 (text "file not found\n")
    return 2
  Program.loop (catTurn fd) turns buf

/-! ### `ece391ls.c` -/

/-- The loop of `main`. -/
def lsTurn (fd : Int32) (buf : Buf) : UserProgram (Buf ⊕ Int32) := do
  let (cnt, buf) ← Program.ask (.read fd buf 32)
  if cnt = 0 then return .inr 0
  if cnt = -1 then
    fdputs 1 (text "directory entry read failed\n")
    return .inr 3
  let buf := Function.update buf cnt.toInt.toNat 10
  let ret ← returned (.write 1 buf (cnt + 1))
  if ret = -1 then return .inr 3
  return .inl buf

/-- `main`, with at most `turns` turns of its loop. -/
def ls (turns : ℕ) (buf : Buf) : UserProgram Int32 := do
  let fd ← returned (.openFile (text "."))
  if fd = -1 then
    fdputs 1 (text "directory open failed\n")
    return 2
  Program.loop (lsTurn fd) turns buf

/-! ### The loops -/

section Loops

variable {img : Image} {o : Own} {fd nbytes : Int32} {piece : Str} {pieces : List Str}

/-- The result of a read that delivered something. -/
lemma ofNat_length (hne : piece ≠ []) (hlt : (piece.length : ℤ) < 2 ^ 31) :
    Int32.ofNat piece.length ≠ 0 ∧ Int32.ofNat piece.length ≠ -1 ∧
      0 ≤ Int32.ofNat piece.length ∧ (Int32.ofNat piece.length).toInt.toNat = piece.length := by
  have hpos := List.length_pos_iff.2 hne
  have hint := toInt_ofNat (n := piece.length) (by omega)
  refine ⟨fun h => ?_, ofNat_ne_neg_one (by omega), Int32.le_iff_toInt_le.2 ?_, ?_⟩
  · exact hpos.ne' (eq_zero_of_ofNat (by omega) h)
  · rw [hint]
    exact Int.natCast_nonneg _
  · rw [hint, Int.toNat_natCast]

lemma map_store (buf : Buf) (cs : Str) : (List.range cs.length).map (store buf cs) = cs := by
  have hstore : (List.range cs.length).map (store buf cs) = (List.range cs.length).map cs.byteAt :=
    List.map_congr_left fun i hi => if_pos (List.mem_range.1 hi)
  rw [hstore, range_map_byteAt _ le_rfl, List.take_length]

lemma toInt_1024 : (1024 : Int32).toInt = 1024 := by decide

/-- **The loop of `cat`** prints the pieces. -/
lemma does_catLoop (h : Stream img fd 1024 o pieces) (hout : o.Stdout) (h8 : 8 ∉ pieces.flatten)
    {turns : ℕ} (hturns : pieces.length < turns) (buf : Buf) :
    Does img (Program.loop (catTurn fd) turns buf)
      (fun ret o' => ret = 0 ∧ o'.printed = o.printed ++ pieces.flatten) o := by
  refine Program.wp_loop (fun m _ o' => ∃ left, Stream img fd 1024 o' left ∧ o'.Stdout ∧
      8 ∉ left.flatten ∧ left.length = m ∧
      o'.printed ++ left.flatten = o.printed ++ pieces.flatten) ?_ hturns
    ⟨pieces, h, hout, h8, rfl, rfl⟩
  rintro m buf o' ⟨left, hleft, hout', h8', hm, hprinted⟩
  cases left with
  | nil =>
    refine Program.wp_bind (does_ask (hleft.nil_read buf) ?_)
    rw [List.flatten_nil, List.append_nil] at hprinted
    exact ⟨rfl, hprinted⟩
  | cons piece left =>
    obtain ⟨hne, hle, o'', hread, hfd1, hsame, hnext⟩ := hleft.cons_read
    rw [toInt_1024] at hle
    obtain ⟨h0, h1, hnonneg, hlen⟩ := ofNat_length hne (by omega)
    rw [List.flatten_cons, List.mem_append, not_or] at h8'
    have hbytes : (List.range (Int32.ofNat piece.length).toInt.toNat).map (store buf piece) =
        piece := by rw [hlen, map_store]
    have hwrite := serve_print img (store buf piece) (hout'.congr hfd1) hnonneg
      (by rw [hbytes]; exact h8'.1)
    rw [hbytes] at hwrite
    refine Program.wp_bind (does_ask (hread buf) ?_)
    simp only [h0, h1, if_false]
    refine Program.wp_bind (does_returned hwrite ?_)
    simp only [h1, if_false]
    refine ⟨left.length, hm ▸ Nat.lt_succ_self _, left, hnext.print piece,
      (hout'.congr hfd1).print piece, h8'.2, rfl, ?_⟩
    rw [← hprinted, Own.print, hsame, List.flatten_cons, List.append_assoc]

lemma toInt_32 : (32 : Int32).toInt = 32 := by decide

/-- A line of `ls`. -/
lemma map_line (buf : Buf) (name : Str) :
    (List.range (name.length + 1)).map (Function.update (store buf name) name.length 10) =
      name ++ [10] := by
  rw [List.range_succ, List.map_append, List.map_singleton, Function.update_self]
  have hname : (List.range name.length).map (Function.update (store buf name) name.length 10) =
      (List.range name.length).map (store buf name) := by
    refine List.map_congr_left fun i hi => Function.update_of_ne ?_ ..
    exact (List.mem_range.1 hi).ne
  rw [hname, map_store]

/-- **The loop of `ls`** prints the pieces, a line each. -/
lemma does_lsLoop (h : Stream img fd 32 o pieces) (hout : o.Stdout) (h8 : 8 ∉ pieces.flatten)
    {turns : ℕ} (hturns : pieces.length < turns) (buf : Buf) :
    Does img (Program.loop (lsTurn fd) turns buf)
      (fun ret o' => ret = 0 ∧ o'.printed = o.printed ++ pieces.flatMap (· ++ [10])) o := by
  refine Program.wp_loop (fun m _ o' => ∃ left, Stream img fd 32 o' left ∧ o'.Stdout ∧
      8 ∉ left.flatten ∧ left.length = m ∧
      o'.printed ++ left.flatMap (· ++ [10]) = o.printed ++ pieces.flatMap (· ++ [10])) ?_ hturns
    ⟨pieces, h, hout, h8, rfl, rfl⟩
  rintro m buf o' ⟨left, hleft, hout', h8', hm, hprinted⟩
  cases left with
  | nil =>
    refine Program.wp_bind (does_ask (hleft.nil_read buf) ?_)
    rw [List.flatMap_nil, List.append_nil] at hprinted
    exact ⟨rfl, hprinted⟩
  | cons name left =>
    obtain ⟨hne, hle, o'', hread, hfd1, hsame, hnext⟩ := hleft.cons_read
    rw [toInt_32] at hle
    obtain ⟨h0, h1, -, hlen⟩ := ofNat_length hne (by omega)
    rw [List.flatten_cons, List.mem_append, not_or] at h8'
    have hsucc : Int32.ofNat name.length + 1 = Int32.ofNat (name.length + 1) :=
      (Int32.ofNat_add _ _).symm
    have hline : name ++ [10] ≠ [] := by simp
    obtain ⟨-, h1', hnonneg, hlen'⟩ := ofNat_length hline
      (by rw [List.length_append, List.length_singleton]; omega)
    rw [List.length_append, List.length_singleton] at h1' hnonneg hlen'
    have hbytes : (List.range (Int32.ofNat (name.length + 1)).toInt.toNat).map
        (Function.update (store buf name) name.length 10) = name ++ [10] := by
      rw [hlen', map_line]
    have hwrite := serve_print img (Function.update (store buf name) name.length 10)
      (hout'.congr hfd1) hnonneg (by rw [hbytes]; simpa using h8'.1)
    rw [hbytes] at hwrite
    refine Program.wp_bind (does_ask (hread buf) ?_)
    simp only [h0, h1, if_false, hlen, hsucc]
    refine Program.wp_bind (does_returned hwrite ?_)
    simp only [h1', if_false]
    refine ⟨left.length, hm ▸ Nat.lt_succ_self _, left, hnext.print _,
      (hout'.congr hfd1).print _, h8'.2, rfl, ?_⟩
    rw [← hprinted, Own.print, hsame, List.flatMap_cons, List.append_assoc]

end Loops

/-! ### The programs -/

/-- What `cat` should return and print, for its argument. -/
def catResult (img : Image) (argument : Str) : Int32 × Str :=
  if argument = [] then (3, text "could not read arguments\n")
  else
    match readDentryByName img argument with
    | none => (2, text "file not found\n")
    | some d => (0, entryText img d)

section Programs

variable {img : Image} {o : Own} {i : ℕ}

/-- A message, and the end of the program. -/
lemma does_message {s : String} {code : Int32} {Q : Int32 → Own → Prop} (hout : o.Stdout)
    (hs : cstr (text s) = text s) (hlen : (text s).length < 2 ^ 31) (h8 : 8 ∉ text s)
    (hQ : Q code (o.print (text s))) :
    Does img (do fdputs 1 (text s); return code) Q o := by
  refine Program.wp_bind (does_fdputs hout hlen (hs.symm ▸ h8) ?_)
  rw [hs]
  exact hQ

/-- The loops make no more turns than there are characters. -/
lemma Stream.length_le {fd nbytes : Int32} {pieces : List Str}
    (h : Stream img fd nbytes o pieces) : pieces.length ≤ pieces.flatten.length := by
  induction h with
  | done => exact Nat.le_refl 0
  | more hne _ _ _ _ _ ih =>
    have hpos := List.length_pos_iff.2 hne
    rw [List.length_cons, List.flatten_cons, List.length_append]
    omega

/-- `cat` on its own state. -/
lemma does_cat (hroom : o.Room i) (hnonzero : ∀ x ∈ o.argument, x ≠ 0)
    (hlen : o.argument.length < 1024)
    (hok : ∀ d, readDentryByName img o.argument = some d →
      EntryOk img d ∧ 8 ∉ entryText img d)
    {turns : ℕ} (hturns : (catResult img o.argument).2.length < turns) (buf : Buf) :
    Does img (cat turns buf) (fun ret o' => ret = (catResult img o.argument).1 ∧
      o'.printed = o.printed ++ (catResult img o.argument).2) o := by
  rw [catResult] at hturns ⊢
  by_cases hnil : o.argument = []
  · have hargs : o.serve img (.getargs buf 1024) = some ((-1, buf), o) := by
      rw [Own.serve, if_neg (by decide), if_pos (Or.inr hnil)]
    rw [if_pos hnil]
    refine Program.wp_bind (does_ask hargs ?_)
    exact does_message hroom.stdout (by decide) (by decide) (by decide) ⟨rfl, rfl⟩
  · have hargs : o.serve img (.getargs buf 1024) =
        some ((0, memcpy buf o.argument.byteAt 1024), o) := by
      rw [Own.serve, if_neg (by decide), if_neg (not_or.2 ⟨by decide, hnil⟩)]
      rfl
    have hname : strAt (memcpy buf o.argument.byteAt 1024) 1024 0 = o.argument := by
      rw [strAt, ← cstr_range hnonzero hlen.le]
      refine congrArg cstr (List.map_congr_left fun j hj => ?_)
      rw [Nat.zero_add, cstr_range hnonzero hlen.le]
      exact if_pos (List.mem_range.1 hj)
    rw [if_neg hnil] at hturns ⊢
    refine Program.wp_bind (does_ask hargs ?_)
    simp only [ne_eq, not_true_eq_false, if_false, hname]
    cases hfind : readDentryByName img o.argument with
    | none =>
      have hopen : o.serve img (.openFile o.argument) = some ((-1, noBuf), o) := by
        rw [Own.serve, hfind]
      refine Program.wp_bind (does_returned hopen ?_)
      exact does_message hroom.stdout (by decide) (by decide) (by decide) ⟨rfl, rfl⟩
    | some d =>
      rw [hfind] at hturns
      obtain ⟨hentry, h8⟩ := hok d hfind
      obtain ⟨driver, hd⟩ := Option.isSome_iff_exists.1 hentry.known
      obtain ⟨pieces, hpieces, hflat⟩ := hroom.stream hentry hd
        (by decide : 32 ≤ (1024 : Int32).toInt)
      have hle := hpieces.length_le
      rw [hflat] at hle
      refine Program.wp_bind (does_returned (serve_opened hroom hfind hd) ?_)
      simp only [hroom.fd_ne, if_false]
      have hloop := does_catLoop hpieces hroom.opened_stdout (hflat.symm ▸ h8)
        (lt_of_le_of_lt hle hturns) (memcpy buf o.argument.byteAt 1024)
      rw [hflat] at hloop
      exact hloop

/-- `ls` on its own state. -/
lemma does_ls (hroom : o.Room i) {d : DirEntry} (hname : readDentryByName img (text ".") = some d)
    (hd : driverOf d.fileType = some .dir) (hne : ∀ e ∈ img.entries, e.name ≠ [])
    (h8 : ∀ e ∈ img.entries, 8 ∉ e.name) {turns : ℕ} (hturns : img.entries.length < turns)
    (buf : Buf) :
    Does img (ls turns buf) (fun ret o' => ret = 0 ∧
      o'.printed = o.printed ++ img.entries.flatMap fun e => e.name ++ [10]) o := by
  have hat : DirAt img (o.opened i d .dir) (Int32.ofNat i) (img.entries.map DirEntry.name) :=
    hroom.dirAt d
  have hstream := hat.stream (by decide : 32 ≤ (32 : Int32).toInt)
    (List.forall_mem_map.2 hne)
  have hnot : 8 ∉ (img.entries.map DirEntry.name).flatten := by
    intro hmem
    obtain ⟨name, hmem, h8'⟩ := List.mem_flatten.1 hmem
    obtain ⟨e, he, rfl⟩ := List.mem_map.1 hmem
    exact h8 e he h8'
  refine Program.wp_bind (does_returned (serve_opened hroom hname hd) ?_)
  simp only [hroom.fd_ne, if_false]
  have hloop := does_lsLoop hstream hroom.opened_stdout hnot
    (by rw [List.length_map]; exact hturns) buf
  rw [List.flatMap_map] at hloop
  exact hloop

end Programs

/-- **`cat` prints what is in its entry.**  Among any work of others that leaves the program's own
state alone it ends and has printed the text of the file that is its argument, the names of the
directory, nothing of the RTC, or its error message. -/
theorem cat_prints (img : Image) (s : Session) (o : Own) (hs : Owns s o) (i : ℕ)
    (hroom : o.Room i) (hlen : o.argument.length < 1024)
    (hok : ∀ d, readDentryByName img o.argument = some d →
      EntryOk img d ∧ 8 ∉ entryText img d)
    (turns : ℕ) (hturns : (catResult img o.argument).2.length < turns) (buf : Buf)
    (work : ℕ → Session → Session) (hwork : ∀ i s, Undisturbed s (work i s)) :
    ∃ t, Program.run (Session.serve img) (cat turns buf) work s =
        some ((catResult img o.argument).1, t) ∧
      t.printed = s.printed ++ (catResult img o.argument).2 := by
  obtain ⟨ret, t, hrun, o', howns, rfl, hprinted⟩ :=
    (does_cat hroom hs.nonzero hlen hok hturns buf).run hs hwork
  refine ⟨t, hrun, ?_⟩
  rw [howns.printed, hprinted, hs.printed]

/-- The directory of the small image. -/
theorem cat_prints_directory : ∃ t,
    Program.run (Session.serve sampleImage) (cat 100 noBuf) (fun _ s => s)
        (sampleSession (text ".")) = some (0, t) ∧ t.printed = text ".shellfishrtc" := by
  obtain ⟨t, hrun, hprinted⟩ := cat_prints sampleImage (sampleSession (text "."))
    (sampleOwn (text ".")) (sample_owns (by decide)) 2
    ⟨by decide, ⟨rfl, by decide⟩, by decide⟩ (by decide) (fun d hd => by
      obtain rfl : sampleImage.dirEntries 0 = d := Option.some.inj hd
      exact ⟨⟨by decide, fun h => absurd h (by decide), fun _ => by decide⟩, by decide⟩)
    100 (by decide) noBuf (fun _ s => s) (fun _ s => Undisturbed.refl s)
  exact ⟨t, hrun, hprinted⟩

/-- **`ls` prints the names of the directory**, a line each. -/
theorem ls_prints (img : Image) (s : Session) (o : Own) (hs : Owns s o) (i : ℕ)
    (hroom : o.Room i) (d : DirEntry) (hname : readDentryByName img (text ".") = some d)
    (hd : driverOf d.fileType = some .dir) (hne : ∀ e ∈ img.entries, e.name ≠ [])
    (h8 : ∀ e ∈ img.entries, 8 ∉ e.name) (turns : ℕ) (hturns : img.entries.length < turns)
    (buf : Buf) (work : ℕ → Session → Session) (hwork : ∀ i s, Undisturbed s (work i s)) :
    ∃ t, Program.run (Session.serve img) (ls turns buf) work s = some (0, t) ∧
      t.printed = s.printed ++ img.entries.flatMap fun e => e.name ++ [10] := by
  obtain ⟨ret, t, hrun, o', howns, rfl, hprinted⟩ :=
    (does_ls hroom hname hd hne h8 hturns buf).run hs hwork
  refine ⟨t, hrun, ?_⟩
  rw [howns.printed, hprinted, hs.printed]

/-- The names of the small image. -/
theorem ls_prints_sample : ∃ t,
    Program.run (Session.serve sampleImage) (ls 5 noBuf) (fun _ s => s) (sampleSession []) =
      some (0, t) ∧ t.printed = text ".\nshell\nfish\nrtc\n" := by
  obtain ⟨t, hrun, hprinted⟩ := ls_prints sampleImage (sampleSession []) (sampleOwn [])
    (sample_owns (by decide)) 2 ⟨by decide, ⟨rfl, by decide⟩, by decide⟩
    (sampleImage.dirEntries 0) rfl (by decide) (by decide) (by decide) 5 (by decide) noBuf
    (fun _ s => s) (fun _ s => Undisturbed.refl s)
  exact ⟨t, hrun, hprinted⟩

end Userland

end WnajOS
