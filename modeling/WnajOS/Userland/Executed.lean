import WnajOS.Userland.Running

/-!
# Executing a program

A shell executes a command.  The process that `syscall_execute` creates has the descriptors of
`setup_fd` and the argument of the command for itself; from its first instruction on, its program
runs as if it were alone.
-/

namespace WnajOS

/-- The invariants of a regular run from boot. -/
lemma regular_boot {img : Image} {l : Layout} {pg : Paging} {vram : ℕ → ℕ → UInt8}
    {mem : ℤ → Pcb} {m : Machine}
    (h : Runs.Reach (Machine.step img) (fun e m => Regular img e m.kernel)
      (bootMachine l pg vram mem) m) : Inv m.kernel m.live ∧ m.kernel.board.Sound := by
  refine h.invariant (P := fun m => Inv m.kernel m.live ∧ m.kernel.board.Sound) ?_ ?_
  · exact ⟨inv_boot l pg vram mem, sound_boot l pg vram mem⟩
  · rintro e m m' ⟨hinv, hsound⟩ hreg hs
    obtain ⟨k', hk, rfl⟩ := Option.map_eq_some_iff.1 hs
    exact ⟨hinv.step hreg.orderly hs, sound_step hsound hreg.backsStay hk⟩

namespace Userland

open Programs

/-- What the process `i`, created for a command, has for itself. -/
def startedOwn (k : Kernel) (i : ℤ) (command : Str) : Own :=
  ⟨setupFd (k.pcbOf i).fdArr, givenArgs command, k.rtc.freq k.scheduledTerm, []⟩

/-- The descriptors of `setup_fd`. -/
lemma startedOwn_room (k : Kernel) (i : ℤ) (command : Str) : (startedOwn k i command).Room 2 :=
  have hflags : (1 : UInt32) ≠ 0 := by decide
  ⟨hflags, ⟨rfl, hflags⟩, rfl⟩

/-- A command that the machine executes creates a process. -/
lemma executed_created {img : Image} {k k' : Kernel} {command : Str} {ebuf : Buf} {i : ℤ}
    (hs : step img (.execute command ebuf) k = some k') (hi : k'.ctl.point = .entering i) :
    ∃ caller, Created k i caller (parseCommand command).args k' := by
  cases step_cases hs with
  | @execute p _ _ _ hpt hstart =>
    have hex := executed img k (.linkage p) command ebuf
    rw [startStep] at hstart
    generalize syscallExecute img k (.linkage p) command ebuf = r at hstart hex
    cases hex with
    | fails =>
      obtain rfl := Option.some.inj hstart
      exact absurd (hpt.symm.trans hi) (by simp)
    | faults =>
      obtain rfl := Option.some.inj hstart
      exact absurd hi (by simp)
    | @starts d j =>
      obtain rfl := Option.some.inj hstart
      have hc := created k j (.linkage p) (parseCommand command).args
      obtain rfl : (j : ℤ) = i := by
        rw [hc.ctl] at hi
        exact Point.entering.inj hi
      exact ⟨.linkage p, hc⟩

/-- A new process has what `syscall_execute` gives it. -/
lemma executed_represents {α : Type} {img : Image} {m m' : Machine} {command : Str} {ebuf : Buf}
    {i : ℤ} (hinv : Inv m.kernel m.live) (hsound : m.kernel.board.Sound)
    (hreg : Regular img (.execute command ebuf) m.kernel)
    (hs : m.step img (.execute command ebuf) = some m')
    (hi : m'.kernel.ctl.point = .entering i) (prog : UserProgram α) :
    Running.Represents m.kernel.scheduledTerm i ⟨m', prog, [], 0⟩
      (startedOwn m.kernel i command) := by
  have hinv' := hinv.step hreg.orderly hs
  have hargs := executed_args rfl hs hi
  obtain ⟨k', hk, hm'⟩ := Option.map_eq_some_iff.1 hs
  obtain ⟨k₁, live⟩ := m'
  obtain ⟨rfl, hlive⟩ := Machine.mk.inj hm'
  have hsound' := sound_step hsound hreg.backsStay hk
  have hrtc := start_rtc rfl hk
  obtain ⟨caller, hcreated⟩ := executed_created hk hi
  have hsched := hcreated.scheduledTerm
  have hctx : (k'.context m.kernel.scheduledTerm).point = .entering i := by
    rw [← hsched, Kernel.context_self]
    exact hi
  refine ⟨hinv', hsound', ?_, ?_, fun q call hq => ?_, ?_, hargs, fun _ => givenArgs_ne_zero, ?_, rfl⟩
  · refine ⟨m.live m.kernel.scheduledTerm, ?_⟩
    change live _ = _
    rw [← hlive, liveAfter, hi]
    exact Function.update_self ..
  · change (k'.context m.kernel.scheduledTerm).point.runs = some i
    rw [hctx]
    rfl
  · change (k'.context m.kernel.scheduledTerm).point = .sys q call at hq
    rw [hctx] at hq
    exact absurd hq (by simp)
  · change (k'.pcbOf i).fdArr = _
    rw [hcreated.pcbOf, if_pos rfl]
    rfl
  · change k'.rtc.freq _ = _
    rw [hrtc]
    rfl

/-! ### Among the other processes -/

/-- The last shell executes the command `shell .` after the boot: the machine before and after
that. -/
def dotStarted : Option (Machine × Machine) :=
  (Runs.run (Runs.guarded (Machine.step sampleImage) fun e m => Regular sampleImage e m.kernel)
    bootShells sampleMachine).bind fun m =>
      (Runs.guarded (Machine.step sampleImage) (fun e m => Regular sampleImage e m.kernel)
        (.execute (shellName ++ [32, 46]) noBuf) m).map fun m' => (m, m')

/-- The process of the pid 3 runs a program, up to the return of its `n`-th call. -/
def returnsAfter {α : Type} (prog : UserProgram α) (events : List RunEvent) (n : ℕ) (m : Machine) :
    Bool :=
  (Runs.run (Runs.guarded (Running.step sampleImage 3) (Running.Guard sampleImage)) events
    ⟨m, prog, [], 0⟩).any fun s => s.calls = n

/-- The new process is that of the pid 3. -/
lemma dotStarted_runs {α : Type} {prog : UserProgram α} {events : List RunEvent} {n : ℕ}
    (h : dotStarted.any (fun x => x.1.kernel.scheduledTerm = 2 ∧
      x.2.kernel.ctl.point.entering? = some 3 ∧ returnsAfter prog events n x.2 = true) = true) :
    ∃ m m' s, Runs.Reach (Machine.step sampleImage) (fun e m => Regular sampleImage e m.kernel)
        sampleMachine m ∧ Regular sampleImage (.execute (shellName ++ [32, 46]) noBuf) m.kernel ∧
      m.step sampleImage (.execute (shellName ++ [32, 46]) noBuf) = some m' ∧
      m'.kernel.ctl.point = .entering 3 ∧ m.kernel.scheduledTerm = 2 ∧
      Runs.run (Runs.guarded (Running.step sampleImage 3) (Running.Guard sampleImage)) events
        ⟨m', prog, [], 0⟩ = some s ∧ s.calls = n := by
  obtain ⟨⟨m, m'⟩, hstarted, hstate⟩ := (Option.any_eq_true _ _).1 h
  obtain ⟨m₁, hrun, hexec⟩ := Option.bind_eq_some_iff.1 hstarted
  obtain ⟨m₂, hstep, heq⟩ := Option.map_eq_some_iff.1 hexec
  obtain ⟨rfl, rfl⟩ := Prod.mk.inj heq
  obtain ⟨hreg, hs⟩ := Runs.guarded_eq_some.1 hstep
  obtain ⟨hsched, hpid, hreturns⟩ := of_decide_eq_true hstate
  obtain ⟨s, hs', hcalls⟩ := (Option.any_eq_true _ _).1 hreturns
  exact ⟨m₁, m₂, s, Runs.reach_of_guarded hrun, hreg, hs, Point.eq_entering hpid, hsched, hs',
    of_decide_eq_true hcalls⟩

open Running in
/-- **A program runs as if it were alone.**  If a program comes to its end on its own state, then
there is a number of calls such that in every regular run of the machine on which a process runs it,
among the ticks, the keys and everything that the other processes do, the process stays alive, its
calls return as long as it has not made that number, and then it is at its end, with the value and
the printed text of the run alone. -/
theorem runs_as_alone {α : Type} (img : Image) (prog : UserProgram α) (o o' : Own) (a : α)
    (halone : Program.run (Own.serve img) prog (fun _ o => o) o = some (a, o')) :
    ∃ n, ∀ (t : ℕ) (p : ℤ) (m : Machine) (s : Running α),
      Represents t p ⟨m, prog, o.printed, 0⟩ o →
      Runs.Reach (Running.step img p) (Guard img) ⟨m, prog, o.printed, 0⟩ s →
      s.AsAlone img t p n a o'.printed := by
  obtain ⟨n, hsteady⟩ := Program.after_of_run halone
  exact ⟨n, fun t p m s hstart hreach => (Follows.reach hstart hsteady hreach).asAlone hsteady⟩

/-- A program that writes `hi`. -/
def writeHi : UserProgram Int32 := returned (.write 1 (text "hi").byteAt 2)

/-- It is entered, begins to write, and goes on when it is scheduled again; meanwhile a key is
pressed. -/
def hiEvents : List RunEvent :=
  [.other .enter, .ask, .other .tick, .other (.key false 0x61), .other .tick, .other .tick, .answer]

/-- Its call has returned. -/
theorem runs_as_alone_hi : ∃ m s n, Runs.run (Running.step sampleImage 3) hiEvents
    ⟨m, writeHi, [], 0⟩ = some s ∧ s.calls = 1 ∧ s.AsAlone sampleImage 2 3 n 2 (text "hi") := by
  have hrun : dotStarted.any (fun x => x.1.kernel.scheduledTerm = 2 ∧
      x.2.kernel.ctl.point.entering? = some 3 ∧ returnsAfter writeHi hiEvents 1 x.2 = true)
      = true := by
    decide +kernel
  obtain ⟨m, m', s, hreach, hreg, hs, hi, hsched, hs', hcalls⟩ := dotStarted_runs hrun
  obtain ⟨hinv, hsound⟩ := regular_boot hreach
  have hroom := startedOwn_room m.kernel 3 (shellName ++ [32, 46])
  have hhi : Does sampleImage writeHi
      (fun a o' => a = 2 ∧ o' = (startedOwn m.kernel 3 (shellName ++ [32, 46])).print (text "hi"))
      (startedOwn m.kernel 3 (shellName ++ [32, 46])) :=
    does_returned (serve_print sampleImage _ hroom.stdout (by decide) (by decide)) ⟨rfl, rfl⟩
  obtain ⟨a, o', halone, rfl, rfl⟩ := Program.wp_run_alone hhi
  obtain ⟨n, hn⟩ := runs_as_alone sampleImage writeHi _ _ _ halone
  have hstart := executed_represents hinv hsound hreg hs hi writeHi
  rw [hsched] at hstart
  exact ⟨m', s, n, Runs.run_of_guarded hs', hcalls,
    hn 2 3 m' s hstart (Runs.reach_of_guarded hs')⟩

/-- What a program does alone, it does in a process that executes it. -/
lemma executed_alone {α : Type} {img : Image} {m m' : Machine} {command : Str} {ebuf : Buf} {i : ℤ}
    (hinv : Inv m.kernel m.live) (hsound : m.kernel.board.Sound)
    (hreg : Regular img (.execute command ebuf) m.kernel)
    (hs : m.step img (.execute command ebuf) = some m')
    (hi : m'.kernel.ctl.point = .entering i) {prog : UserProgram α} {Q : α → Own → Prop}
    (hprog : Does img prog Q (startedOwn m.kernel i command)) :
    ∃ n a o', Q a o' ∧ ∀ s, Runs.Reach (Running.step img i) (Running.Guard img)
      ⟨m', prog, [], 0⟩ s → s.AsAlone img m.kernel.scheduledTerm i n a o'.printed := by
  obtain ⟨a, o', hrun, hQ⟩ := Program.wp_run_alone hprog
  obtain ⟨n, hsteady⟩ := Program.after_of_run hrun
  have hstart := executed_represents hinv hsound hreg hs hi prog
  exact ⟨n, a, o', hQ, fun s hreach =>
    (Running.Follows.reach hstart hsteady hreach).asAlone hsteady⟩

/-- **`cat` on the machine.**  In every regular run from boot in which a shell executes a command and
the new process runs `cat`, the process prints the text of the file that the command names, the names
of the directory, nothing of the RTC, or its error message, whatever the keys, the other programs and
the ticks do meanwhile. -/
theorem cat_on_machine (img : Image) (l : Layout) (pg : Paging) (vram : ℕ → ℕ → UInt8)
    (mem : ℤ → Pcb) (m m' : Machine) (command : Str) (ebuf : Buf) (i : ℤ)
    (hreach : Runs.Reach (Machine.step img) (fun e m => Regular img e m.kernel)
      (bootMachine l pg vram mem) m)
    (hreg : Regular img (.execute command ebuf) m.kernel)
    (hs : m.step img (.execute command ebuf) = some m')
    (hi : m'.kernel.ctl.point = .entering i)
    (hok : ∀ d, readDentryByName img (givenArgs command) = some d →
      EntryOk img d ∧ 8 ∉ entryText img d)
    (turns : ℕ) (hturns : (catResult img (givenArgs command)).2.length < turns) (buf : Buf) :
    ∃ n, ∀ s, Runs.Reach (Running.step img i) (Running.Guard img) ⟨m', cat turns buf, [], 0⟩ s →
      s.AsAlone img m.kernel.scheduledTerm i n (catResult img (givenArgs command)).1
        (catResult img (givenArgs command)).2 := by
  obtain ⟨hinv, hsound⟩ := regular_boot hreach
  have hlen := givenArgs_length command
  have hcat := does_cat (startedOwn_room m.kernel i command) (fun _ => givenArgs_ne_zero)
    (show (givenArgs command).length < 1024 by omega) hok hturns buf
  obtain ⟨n, a, o', ⟨rfl, hprinted⟩, halone⟩ := executed_alone hinv hsound hreg hs hi hcat
  refine ⟨n, fun s hrun => ?_⟩
  rw [← show o'.printed = (catResult img (givenArgs command)).2 from hprinted]
  exact halone s hrun

/-- It is entered, asks for its argument and opens the directory; each of its four entries takes a
read and a write, and the last read returns 0. -/
def catEvents : List RunEvent :=
  [.other .enter, .ask, .ask] ++ (List.replicate 4 [RunEvent.ask, .ask, .other .tick,
    .other (.key false 0x61), .other .tick, .other .tick, .answer]).flatten ++ [.ask]

/-- The last shell executes `cat` on the directory of the small image. -/
theorem cat_on_machine_directory : ∃ m s n, Runs.run (Running.step sampleImage 3) catEvents
    ⟨m, cat 100 noBuf, [], 0⟩ = some s ∧ s.calls = 11 ∧
      s.AsAlone sampleImage 2 3 n 0 (text ".shellfishrtc") := by
  have hrun : dotStarted.any (fun x => x.1.kernel.scheduledTerm = 2 ∧
      x.2.kernel.ctl.point.entering? = some 3 ∧
        returnsAfter (cat 100 noBuf) catEvents 11 x.2 = true) = true := by
    decide +kernel
  obtain ⟨m, m', s, hreach, hreg, hs, hi, hsched, hs', hcalls⟩ := dotStarted_runs hrun
  have hargs : givenArgs (shellName ++ [32, 46]) = [46] := by decide
  obtain ⟨n, hn⟩ := cat_on_machine sampleImage sampleLayout samplePaging _ _ m m' _ noBuf 3 hreach
    hreg hs hi (fun d hd => by
      rw [hargs] at hd
      obtain rfl : sampleImage.dirEntries 0 = d := Option.some.inj hd
      exact ⟨⟨by decide, fun h => absurd h (by decide), fun _ => by decide⟩, by decide⟩)
    100 (by rw [hargs]; decide) noBuf
  have halone := hn s (Runs.reach_of_guarded hs')
  rw [hsched, hargs] at halone
  exact ⟨m', s, n, Runs.run_of_guarded hs', hcalls, halone⟩

end Userland

end WnajOS
