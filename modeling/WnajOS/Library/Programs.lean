import Mathlib.Tactic

/-!
# Programs that make calls

A program computes and makes calls `c : C`, each of which is answered by some `r : R`.  It runs on a
server, a machine with states `σ` that answers calls and has other work to do between them.  `run` is
the run of a program among some other work, and `wp` says that a program ends with a property,
whatever the server does between the calls within a relation `others`.

Loops get the number of turns they may make.  A program whose loop needs more turns is unfinished,
so that `wp` says that it ends as well.
-/

namespace Programs

/-- A program that makes calls `C`, gets answers `R`, and ends with a value. -/
inductive Program (C R α : Type) : Type
  | done (a : α)
  | call (c : C) (next : R → Program C R α)
  | unfinished

variable {C R α β σ L : Type}

namespace Program

/-- A program, and another one that goes on with its value. -/
def bind : Program C R α → (α → Program C R β) → Program C R β
  | done a, f => f a
  | call c next, f => call c fun r => bind (next r) f
  | unfinished, _ => unfinished

instance : Monad (Program C R) where
  pure := done
  bind := bind

/-- A single call. -/
def ask (c : C) : Program C R R := call c done

/-- A loop of at most `n` turns.  A turn ends with the state of the next one, or with the value of
the loop. -/
def loop (body : L → Program C R (L ⊕ α)) : ℕ → L → Program C R α
  | 0, _ => unfinished
  | n + 1, l => bind (body l) fun
    | .inl l' => loop body n l'
    | .inr a => done a

/-- The run of a program, when the server's other work before its calls is `work 0`, `work 1` and
so on. -/
def run (serve : C → σ → Option (R × σ)) : Program C R α → (ℕ → σ → σ) → σ → Option (α × σ)
  | done a, _, s => some (a, s)
  | call c next, work, s =>
    (serve c (work 0 s)).bind fun (r, t) => run serve (next r) (fun i => work (i + 1)) t
  | unfinished, _, _ => none

/-- What is left of a program after `n` calls without any other work, and the server then. -/
def after (serve : C → σ → Option (R × σ)) :
    ℕ → Program C R α → σ → Option (Program C R α × σ)
  | 0, p, s => some (p, s)
  | n + 1, call c next, s => (serve c s).bind fun (r, t) => after serve n (next r) t
  | _ + 1, _, _ => none

/-- The program ends, and then `Q` holds of its value and the state of the server. -/
def wp (serve : C → σ → Option (R × σ)) (others : σ → σ → Prop) :
    Program C R α → (α → σ → Prop) → σ → Prop
  | done a, Q, s => Q a s
  | call c next, Q, s =>
    ∀ s', others s s' → ∃ r t, serve c s' = some (r, t) ∧ wp serve others (next r) Q t
  | unfinished, _, _ => False

section Rules

variable {serve : C → σ → Option (R × σ)} {others : σ → σ → Prop} {Q Q' : α → σ → Prop} {s : σ}

/-- **Soundness.**  Among any other work within the relation the program ends, with the property. -/
theorem wp_run {p : Program C R α} (h : wp serve others p Q s) {work : ℕ → σ → σ}
    (hwork : ∀ i s, others s (work i s)) :
    ∃ a t, run serve p work s = some (a, t) ∧ Q a t := by
  induction p generalizing work s with
  | done a => exact ⟨a, s, rfl, h⟩
  | call c next ih =>
    obtain ⟨r, t, hserve, hnext⟩ := h (work 0 s) (hwork 0 s)
    obtain ⟨a, t', hrun, hQ⟩ := ih r hnext fun i => hwork (i + 1)
    refine ⟨a, t', ?_, hQ⟩
    rw [run, hserve, Option.bind_some]
    exact hrun
  | unfinished => exact absurd h id

/-- Without any other work. -/
lemma wp_run_alone {p : Program C R α} (h : wp serve Eq p Q s) :
    ∃ a t, run serve p (fun _ s => s) s = some (a, t) ∧ Q a t :=
  wp_run h fun _ _ => rfl

@[simp] lemma wp_pure {a : α} : wp serve others (pure a) Q s ↔ Q a s := Iff.rfl

lemma wp_mono {p : Program C R α} (hQ : ∀ a t, Q a t → Q' a t) (h : wp serve others p Q s) :
    wp serve others p Q' s := by
  induction p generalizing s with
  | done a => exact hQ a s h
  | call c next ih =>
    intro s' hs'
    obtain ⟨r, t, hserve, hnext⟩ := h s' hs'
    exact ⟨r, t, hserve, ih r hnext⟩
  | unfinished => exact h

/-- Programs are proved one after the other. -/
lemma wp_bind {p : Program C R α} {f : α → Program C R β} {Q : β → σ → Prop}
    (h : wp serve others p (fun a t => wp serve others (f a) Q t) s) :
    wp serve others (p >>= f) Q s := by
  induction p generalizing s with
  | done a => exact h
  | call c next ih =>
    intro s' hs'
    obtain ⟨r, t, hserve, hnext⟩ := h s' hs'
    exact ⟨r, t, hserve, ih r hnext⟩
  | unfinished => exact h

/-- **The loop rule.**  An invariant that every turn carries on to fewer turns left, or that a turn
ends the loop with, ends the loop. -/
theorem wp_loop {body : L → Program C R (L ⊕ α)} (P : ℕ → L → σ → Prop)
    (hbody : ∀ m l s, P m l s → wp serve others (body l) (fun r t => match r with
      | .inl l' => ∃ m' < m, P m' l' t
      | .inr a => Q a t) s)
    {m n : ℕ} (hn : m < n) {l : L} (h : P m l s) : wp serve others (loop body n l) Q s := by
  induction n generalizing m l s with
  | zero => exact absurd hn (Nat.not_lt_zero m)
  | succ n ih =>
    refine wp_bind (wp_mono (fun r t hr => ?_) (hbody m l s h))
    cases r with
    | inl l' =>
      obtain ⟨m', hm', h'⟩ := hr
      exact ih (by omega) h'
    | inr a => exact hr

end Rules

section After

variable {serve : C → σ → Option (R × σ)}

/-- One call more. -/
lemma after_succ {n : ℕ} {p : Program C R α} {s t u : σ} {c : C} {next : R → Program C R α} {r : R}
    (h : after serve n p s = some (call c next, t)) (hserve : serve c t = some (r, u)) :
    after serve (n + 1) p s = some (next r, u) := by
  induction n generalizing p s with
  | zero =>
    obtain ⟨rfl, rfl⟩ := Prod.mk.inj (Option.some.inj h)
    rw [after, hserve, Option.bind_some]
    rfl
  | succ n ih =>
    cases p with
    | call c' next' =>
      rw [after] at h ⊢
      obtain ⟨⟨r', t'⟩, hserve', h⟩ := Option.bind_eq_some_iff.1 h
      rw [hserve', Option.bind_some]
      exact ih h
    | done a => exact absurd h (by simp [after])
    | unfinished => exact absurd h (by simp [after])

/-- A program that runs to its end makes a number of calls, and each of them is answered. -/
theorem after_of_run {p : Program C R α} {s t : σ} {a : α}
    (h : run serve p (fun _ s => s) s = some (a, t)) :
    ∃ m, ∀ n q u, after serve n p s = some (q, u) →
      (n < m ∧ ∃ c next r v, q = call c next ∧ serve c u = some (r, v)) ∨
      (n = m ∧ q = done a ∧ u = t) := by
  induction p generalizing s with
  | done a' =>
    obtain ⟨rfl, rfl⟩ := Prod.mk.inj (Option.some.inj h)
    refine ⟨0, fun n q u hn => ?_⟩
    cases n with
    | zero =>
      obtain ⟨rfl, rfl⟩ := Prod.mk.inj (Option.some.inj hn)
      exact Or.inr ⟨rfl, rfl, rfl⟩
    | succ n => exact absurd hn (by simp [after])
  | call c next ih =>
    rw [run] at h
    obtain ⟨⟨r, t'⟩, hserve, h⟩ := Option.bind_eq_some_iff.1 h
    obtain ⟨m, hm⟩ := ih r h
    refine ⟨m + 1, fun n q u hn => ?_⟩
    cases n with
    | zero =>
      obtain ⟨rfl, rfl⟩ := Prod.mk.inj (Option.some.inj hn)
      exact Or.inl ⟨Nat.succ_pos m, c, next, r, t', rfl, hserve⟩
    | succ n =>
      rw [after, hserve, Option.bind_some] at hn
      rcases hm n q u hn with ⟨hlt, hcall⟩ | ⟨rfl, hdone⟩
      · exact Or.inl ⟨Nat.succ_lt_succ hlt, hcall⟩
      · exact Or.inr ⟨rfl, hdone⟩
  | unfinished => exact absurd h (by simp [run])

end After

section Simulation

variable {τ : Type} {serve : C → σ → Option (R × σ)} {others : σ → σ → Prop}
  {serve' : C → τ → Option (R × τ)} {others' : τ → τ → Prop}

/-- The server `serve` does what `serve'` does on related states, where that does anything, and its
other work is other work there. -/
structure Simulates (serve : C → σ → Option (R × σ)) (others : σ → σ → Prop)
    (serve' : C → τ → Option (R × τ)) (others' : τ → τ → Prop) (rel : σ → τ → Prop) : Prop where
  others : ∀ s s' t, rel s t → others s s' → ∃ t', others' t t' ∧ rel s' t'
  serve : ∀ c s t r t', rel s t → serve' c t = some (r, t') →
    ∃ s', serve c s = some (r, s') ∧ rel s' t'

/-- What a program does on a server it does on every server that simulates it. -/
theorem Simulates.wp {rel : σ → τ → Prop} (h : Simulates serve others serve' others' rel)
    {p : Program C R α} {Q : α → τ → Prop} {s : σ} {t : τ} (hrel : rel s t)
    (hp : wp serve' others' p Q t) :
    wp serve others p (fun a s => ∃ t, rel s t ∧ Q a t) s := by
  induction p generalizing s t with
  | done a => exact ⟨t, hrel, hp⟩
  | call c next ih =>
    intro s' hs'
    obtain ⟨t', ht', hrel'⟩ := h.others s s' t hrel hs'
    obtain ⟨r, t₁, hserve, hnext⟩ := hp t' ht'
    obtain ⟨s₁, hserve', hrel₁⟩ := h.serve c s' t' r t₁ hrel' hserve
    exact ⟨r, s₁, hserve', ih r hrel₁ hnext⟩
  | unfinished => exact hp

end Simulation

end Program

end Programs
