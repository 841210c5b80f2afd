import Mathlib.Tactic

/-!
# Runs of a machine with guarded events

A machine is a function `step : E → S → Option S`: in the state `s` the event `e` is either
impossible (`none`) or leads to one state.  A run is a list of events; a *guarded* run is one
in which a condition `ok e s` on the event and the state before it holds at every step.

The file packages the inductions on runs: what one guarded step preserves, every state of a
guarded run satisfies, and a matching of the steps of two machines carries the reachable states
of one to the reachable states of the other.
-/

namespace Runs

variable {E S T : Type*}

/-- The state after a list of events, when all of them are possible. -/
def run (step : E → S → Option S) : List E → S → Option S
  | [], s => some s
  | e :: es, s => (step e s).bind (run step es)

/-- `Reach step ok s₀ s`: the state `s` is reached from `s₀` by steps that all meet `ok`. -/
inductive Reach (step : E → S → Option S) (ok : E → S → Prop) (s₀ : S) : S → Prop
  | refl : Reach step ok s₀ s₀
  | tail {s s' : S} {e : E} :
      Reach step ok s₀ s → ok e s → step e s = some s' → Reach step ok s₀ s'

variable {step : E → S → Option S} {ok ok' : E → S → Prop} {s₀ s₁ s₂ : S}

lemma run_cons {e : E} {es : List E} {s s' : S} (h : step e s = some s') :
    run step (e :: es) s = run step es s' := by
  rw [run, h, Option.bind_some]

lemma run_append (es es' : List E) (s : S) :
    run step (es ++ es') s = (run step es s).bind (run step es') := by
  induction es generalizing s with
  | nil => rfl
  | cons e es ih =>
    rw [List.cons_append, run, run]
    cases step e s with
    | none => rfl
    | some s₁ => exact ih s₁

namespace Reach

/-- **The invariant rule.**  What holds at the start and is preserved by every guarded step
holds in every state reached. -/
theorem invariant {P : S → Prop} (h₀ : P s₀)
    (hstep : ∀ e s s', P s → ok e s → step e s = some s' → P s') {s : S}
    (h : Reach step ok s₀ s) : P s := by
  induction h with
  | refl => exact h₀
  | tail _ hok hs ih => exact hstep _ _ _ ih hok hs

lemma single {e : E} (hok : ok e s₀) (hs : step e s₀ = some s₁) : Reach step ok s₀ s₁ :=
  Reach.tail Reach.refl hok hs

lemma trans (h₁ : Reach step ok s₀ s₁) (h₂ : Reach step ok s₁ s₂) : Reach step ok s₀ s₂ := by
  induction h₂ with
  | refl => exact h₁
  | tail _ hok hs ih => exact Reach.tail ih hok hs

lemma mono (himp : ∀ e s, ok e s → ok' e s) (h : Reach step ok s₀ s₁) :
    Reach step ok' s₀ s₁ := by
  induction h with
  | refl => exact Reach.refl
  | tail _ hok hs ih => exact Reach.tail ih (himp _ _ hok) hs

/-- **The simulation rule.**  If `R` relates the two starting states, and every guarded step of
the first machine keeps `R` with the second one standing still or matching it by a guarded step,
then every state the first machine reaches is related to a state the second one reaches. -/
theorem simulate {F : Type*} {stepT : F → T → Option T} {okT : F → T → Prop} {t₀ : T}
    {R : S → T → Prop} (h₀ : R s₀ t₀)
    (hstep : ∀ e s s' t, R s t → ok e s → step e s = some s' →
      R s' t ∨ ∃ f t', okT f t ∧ stepT f t = some t' ∧ R s' t') {s : S} (h : Reach step ok s₀ s) :
    ∃ t, Reach stepT okT t₀ t ∧ R s t := by
  induction h with
  | refl => exact ⟨t₀, Reach.refl, h₀⟩
  | tail _ hok hs ih =>
    obtain ⟨t, ht, hR⟩ := ih
    rcases hstep _ _ _ _ hR hok hs with hR' | ⟨f, t', hok', hs', hR'⟩
    · exact ⟨t, ht, hR'⟩
    · exact ⟨t', Reach.tail ht hok' hs', hR'⟩

end Reach

/-- `Path step ok s₀ es s`: the events `es` lead from `s₀` to `s`, and all of them meet `ok`. -/
inductive Path (step : E → S → Option S) (ok : E → S → Prop) (s₀ : S) : List E → S → Prop
  | nil : Path step ok s₀ [] s₀
  | snoc {es : List E} {s s' : S} {e : E} :
      Path step ok s₀ es s → ok e s → step e s = some s' → Path step ok s₀ (es ++ [e]) s'

/-- **The abstraction rule.**  If `R` relates the two starting states, and every guarded step keeps
`R` with the abstract state after the event, then the last state of a guarded run is related to the
abstract state after its events. -/
theorem Path.refines {R : S → T → Prop} {next : T → E → T} {t₀ : T} (h₀ : R s₀ t₀)
    (hstep : ∀ e s s' t, R s t → ok e s → step e s = some s' → R s' (next t e)) {es : List E} {s : S}
    (h : Path step ok s₀ es s) : R s (es.foldl next t₀) := by
  induction h with
  | nil => exact h₀
  | snoc _ hok hs ih =>
    rw [List.foldl_append]
    exact hstep _ _ _ _ ih hok hs

/-- A list of events that runs, each step meeting the guard, reaches its final state. -/
lemma reach_of_run (hok : ∀ e s, ok e s) {es : List E} {s s' : S}
    (h : run step es s = some s') : Reach step ok s s' := by
  induction es generalizing s with
  | nil =>
    obtain rfl : s = s' := Option.some.inj h
    exact Reach.refl
  | cons e es ih =>
    obtain ⟨s₁, h₁, h₂⟩ := Option.bind_eq_some_iff.1 h
    exact (Reach.single (hok e s) h₁).trans (ih h₂)

/-- The machine in which an event that does not meet the guard is impossible. -/
def guarded (step : E → S → Option S) (ok : E → S → Prop) [∀ e s, Decidable (ok e s)] (e : E)
    (s : S) : Option S := if ok e s then step e s else none

lemma guarded_eq_some [∀ e s, Decidable (ok e s)] {e : E} {s s' : S} :
    guarded step ok e s = some s' ↔ ok e s ∧ step e s = some s' := by
  rw [guarded]
  split
  · rename_i hok
    simp only [hok, true_and]
  · rename_i hok
    simp only [hok, false_and, reduceCtorEq]

/-- A run of the guarded machine is a run. -/
lemma run_of_guarded [∀ e s, Decidable (ok e s)] {es : List E} {s s' : S}
    (h : run (guarded step ok) es s = some s') : run step es s = some s' := by
  induction es generalizing s with
  | nil => exact h
  | cons e es ih =>
    obtain ⟨s₁, h₁, h₂⟩ := Option.bind_eq_some_iff.1 h
    rw [run_cons (guarded_eq_some.1 h₁).2]
    exact ih h₂

/-- A run of the guarded machine reaches its final state by steps that meet the guard. -/
lemma reach_of_guarded [∀ e s, Decidable (ok e s)] {es : List E} {s s' : S}
    (h : run (guarded step ok) es s = some s') : Reach step ok s s' := by
  induction es generalizing s with
  | nil =>
    obtain rfl : s = s' := Option.some.inj h
    exact Reach.refl
  | cons e es ih =>
    obtain ⟨s₁, h₁, h₂⟩ := Option.bind_eq_some_iff.1 h
    obtain ⟨hok, hs⟩ := guarded_eq_some.1 h₁
    exact (Reach.single hok hs).trans (ih h₂)

/-- Its events are a path. -/
lemma path_of_guarded [∀ e s, Decidable (ok e s)] {es : List E} {s s' : S}
    (h : run (guarded step ok) es s = some s') : Path step ok s es s' := by
  induction es using List.reverseRecOn generalizing s' with
  | nil =>
    obtain rfl : s = s' := Option.some.inj h
    exact .nil
  | append_singleton es e ih =>
    rw [run_append] at h
    obtain ⟨s₁, h₁, h₂⟩ := Option.bind_eq_some_iff.1 h
    obtain ⟨s₂, hs₂, hnil⟩ := Option.bind_eq_some_iff.1 h₂
    obtain rfl : s₂ = s' := Option.some.inj hnil
    obtain ⟨hok, hs⟩ := guarded_eq_some.1 hs₂
    exact .snoc (ih h₁) hok hs

end Runs
