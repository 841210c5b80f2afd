import WnajOS.Scheduler

/-!
# Who owns a pid

In an orderly run in which every executed program fits into the program page, the slots of
`pid` in use are those of the live processes, and no two of them share one.  A base shell that
halts gives up its slot before it takes a new one; when another terminal executes a program in
between, the two terminals come to name one process.
-/

namespace WnajOS

/-- The process `p` is alive. -/
def Machine.Live (m : Machine) (p : ℤ) : Prop := ∃ t, p ∈ m.live t

/-- Every live process has a pid of its own, and with it a slot, a kernel stack and a frame;
no two terminals name the same process. -/
structure PidsOwned (m : Machine) : Prop where
  onProcessor : m.kernel.ctl.point ≠ .lost
  nodup : ∀ t, (m.live t).Nodup
  disjoint : ∀ s t, s ≠ t → ∀ p ∈ m.live s, p ∉ m.live t
  slot : ∀ p, m.kernel.pid p = 1 ↔ m.Live p
  terms : ∀ s t, s ≠ t → (m.kernel.terms s).pid ≠ -1 →
    (m.kernel.terms s).pid ≠ (m.kernel.terms t).pid
  kernelStack : ∀ p q, m.Live p → m.Live q → p ≠ q →
    stackBase p ≤ pcbAddr q ∨ stackBase q ≤ pcbAddr p
  frame : ∀ p q, m.Live p → m.Live q → p ≠ q → userFrame p ≠ userFrame q

/-- The slots in use are those of live processes. -/
def SlotsLive (m : Machine) : Prop := ∀ p, m.kernel.pid p = 1 → m.Live p

/-- A live process other than the one that halts stays in its stack. -/
lemma live_erase {live : Ledger} {s : ℕ} {p c : ℤ} (hp : ∃ t, p ∈ live t) (hne : p ≠ c) :
    ∃ t, p ∈ Function.update live s ((live s).erase c) t := by
  obtain ⟨t, ht⟩ := hp
  refine ⟨t, ?_⟩
  by_cases hts : t = s
  · subst hts
    rw [Function.update_self]
    exact (List.mem_erase_of_ne hne).2 ht
  · rw [Function.update_of_ne hts]
    exact ht

/-- An orderly step that loads no program beyond its page takes and frees slots with the
processes. -/
lemma SlotsLive.step {img : Image} {e : Event} {m m' : Machine} (h : SlotsLive m)
    (hinv : Inv m.kernel m.live) (hfits : Fits img e) (hs : m.step img e = some m')
    (ho : Orderly img e m.kernel) : SlotsLive m' := by
  have heff := step_effect hs
  obtain ⟨k, live⟩ := m
  obtain ⟨k', live'⟩ := m'
  intro p hp
  dsimp only at hinv ho heff hp
  cases heff with
  | same hsame _ _ =>
    rw [hsame.pid] at hp
    exact h p hp
  | called _ _ hsame _ _ _ =>
    rw [hsame.pid] at hp
    exact h p hp
  | tick he ht =>
    rw [ht.pid] at hp
    exact h p hp
  | @created caller command buf d i he hd hi _ hc =>
    -- the slot taken is that of the process on top now
    rw [hc.pid] at hp
    by_cases hpi : p = i
    · subst hpi
      refine ⟨k.scheduledTerm, ?_⟩
      dsimp only
      rw [Function.update_self]
      exact List.mem_cons_self ..
    · rw [Function.update_of_ne hpi] at hp
      obtain ⟨t, ht⟩ := h p hp
      refine ⟨t, ?_⟩
      dsimp only
      by_cases hts : t = k.scheduledTerm
      · subst hts
        rw [Function.update_self]
        exact List.mem_cons_of_mem _ ht
      · rw [Function.update_of_ne hts]
        exact ht
  | faulted he hd hi hnot hk' => exact absurd (hfits _ (he.program.trans hd)) hnot
  | failed he hc hd =>
    -- in an orderly run the kernel's own shells start
    obtain ⟨⟨d', hd', -⟩, hslot⟩ := ho.shellStarts (he.isOwn hc)
    rcases hd with hnone | hnone
    · rw [he.program, hnone] at hd'
      exact absurd hd' (by simp)
    · rw [hnone] at hslot
      exact absurd hslot (by simp)
  | halted he hproc hk' =>
    -- the slot given up is that of the process that ends
    obtain ⟨l, hlive, hcur⟩ := hinv.proc hproc
    have hid : (k.pcbOf k.cur).processId = k.cur := by
      refine (hinv.stacked k.scheduledTerm).processId ?_
      rw [hlive, hcur]
      exact List.mem_cons_self ..
    have hpids : k'.pid = Function.update k.pid k.cur 0 := by
      rcases syscallHalt_cases k with ⟨-, heq⟩ | ⟨-, hfin⟩
      · rw [hk', heq]
      · rw [hk', hfin.pid, hid]
    rw [hpids] at hp
    have hne : p ≠ k.cur := by
      rintro rfl
      rw [Function.update_self] at hp
      exact absurd hp (by decide)
    rw [Function.update_of_ne hne] at hp
    exact live_erase (h p hp) hne

/-- **Pids are owned.**  In every run from boot in which

* no program is given a slot that another terminal still names,
* only a process that a program executed halts into a parent,
* the shells that the kernel executes start, and no tick comes before they are entered when
  they are started on the stack of another process,
* and every executed program fits into the program page,

every state reached has the pids of its live processes owned. -/
theorem pids_owned (img : Image) (l : Layout) (pg : Paging) (vram : ℕ → ℕ → UInt8)
    (mem : ℤ → Pcb) (m : Machine)
    (h : Runs.Reach (Machine.step img) (fun e m => Orderly img e m.kernel ∧ Fits img e)
      (bootMachine l pg vram mem) m) : PidsOwned m := by
  have hinv : Inv m.kernel m.live := inv_of_reach (fun _ _ ho => ho.1) (inv_boot l pg vram mem) h
  have hslots : Inv m.kernel m.live ∧ SlotsLive m := by
    refine h.invariant (P := fun m => Inv m.kernel m.live ∧ SlotsLive m)
      ⟨inv_boot l pg vram mem, fun p hp => absurd hp (by simp [bootMachine, entryState])⟩ ?_
    exact fun e m₁ m₂ hm ho hs => ⟨hm.1.step ho.1 hs, hm.2.step hm.1 ho.2 hs ho.1⟩
  have hrange : ∀ p, m.Live p → 0 ≤ p ∧ p < 6 := by
    rintro p ⟨t, ht⟩
    exact hinv.range t p ht
  refine ⟨hinv.not_lost, hinv.nodup, hinv.disjoint, fun p => ⟨hslots.2 p, ?_⟩,
    fun s t hst hne heq => hne (hinv.distinct s t hst heq), ?_, ?_⟩
  · rintro ⟨t, ht⟩
    exact hinv.held t p ht
  · intro p q hp hq hne
    rw [stackBase, stackBase, pcbAddr, pcbAddr]
    omega
  · intro p q hp hq hne heq
    exact hne ((userFrame_inj (hrange p hp).1 (hrange p hp).2 (hrange q hq).1 (hrange q hq).2).1 heq)

/-- After the boot of the shells, the last one executes a program, which halts after a round
of ticks. -/
theorem pids_owned_after_child :
    ∃ m, Runs.run (Machine.step sampleImage)
        (bootShells ++ [.execute shellName noBuf, .enter, .tick, .tick, .tick, .halt])
        sampleMachine = some m ∧ PidsOwned m := by
  let es := bootShells ++ [Event.execute shellName noBuf, .enter, .tick, .tick, .tick, .halt]
  have hrun : (Runs.run (Runs.guarded (Machine.step sampleImage)
      fun e m => Orderly sampleImage e m.kernel ∧ Fits sampleImage e) es sampleMachine).isSome := by
    decide +kernel
  obtain ⟨m, hm⟩ := Option.isSome_iff_exists.1 hrun
  exact ⟨m, Runs.run_of_guarded hm, pids_owned sampleImage sampleLayout samplePaging _ _ m
    (Runs.reach_of_guarded hm)⟩

/-- The first shell halts; while its slot is free, a tick comes and the second shell executes a
program. -/
def restartRace : List Event :=
  bootShells ++ [.tick, .halt, .tick, .execute shellName noBuf]

/-- The program gets the slot that the first terminal still names. -/
theorem pids_shared_in_restart :
    ∃ m, Runs.Reach (Machine.step sampleImage) (fun _ _ => True) sampleMachine m ∧
      ¬PidsOwned m := by
  have hrun : (Runs.run (Machine.step sampleImage) restartRace sampleMachine).any (fun m =>
      (m.kernel.terms 0).pid = 0 ∧ (m.kernel.terms 1).pid = 0) = true := by decide +kernel
  obtain ⟨m, hm, hpids⟩ := (Option.any_eq_true _ _).1 hrun
  obtain ⟨h0, h1⟩ := of_decide_eq_true hpids
  refine ⟨m, Runs.reach_of_run (fun _ _ => trivial) hm, fun hown => ?_⟩
  exact hown.terms 0 1 (by decide) (by rw [h0]; decide) (h0.trans h1.symm)

end WnajOS
