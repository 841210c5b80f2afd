import WnajOS.Clock

/-!
# The rates that `rtc_write` accepts

`rtc_write` tests a rate with `freq & (freq - 1)`, and `rtc_read` divides 512 by the rate of its
terminal.  A rate should be accepted only where the division yields at least one interrupt to
wait for.  The test is also passed by 0, by the smallest number and by the powers of two above
512.
-/

namespace WnajOS

namespace Rtc

/-- The rates that `rtc_read` can wait for: the powers of two up to the rate of the interrupts. -/
def Supported (freq : Int32) : Prop := ∃ n ≤ 9, freq.toInt = 2 ^ n

/-- The test of `rtc_write`. -/
def Accepted (freq : Int32) : Prop := freq &&& (freq - 1) = 0

instance : DecidablePred Accepted :=
  fun freq => inferInstanceAs (Decidable (freq &&& (freq - 1) = 0))

/-- The rate lies between 1 and 512. -/
def InRange (freq : Int32) : Prop := 1 ≤ freq.toInt ∧ freq.toInt ≤ 512

instance : DecidablePred InRange := fun _ => inferInstanceAs (Decidable (_ ∧ _))

lemma eq_ofNat_of_toInt {freq : Int32} {n : ℕ} (h : freq.toInt = n) (hn : n < 2 ^ 31) :
    freq = Int32.ofNat n :=
  Int32.toInt_inj.1 (h.trans (Int32.toInt_ofNat_of_lt hn).symm)

lemma accepted_pow (n : Fin 10) : Accepted (Int32.ofNat (2 ^ n.val)) := by
  revert n
  decide

lemma pow_of_accepted (n : Fin 513) (h0 : 0 < n.val) (h : Accepted (Int32.ofNat n.val)) :
    ∃ i : Fin 10, n.val = 2 ^ i.val := by
  revert n
  decide +kernel

/-- The test is right for the rates in range, and for no others. -/
lemma supported_iff (freq : Int32) : Supported freq ↔ Accepted freq ∧ InRange freq := by
  constructor
  · rintro ⟨n, hn, hfreq⟩
    have hle : (2 : ℤ) ^ n ≤ 2 ^ 9 := pow_le_pow_right₀ (by norm_num) hn
    have hpos : (1 : ℤ) ≤ 2 ^ n := one_le_pow₀ (by norm_num)
    have hnat : freq.toInt = (2 ^ n : ℕ) := by rw [hfreq, Nat.cast_pow, Nat.cast_ofNat]
    have hlt : 2 ^ n < 2 ^ 31 := Nat.pow_lt_pow_right (by norm_num) (by omega)
    refine ⟨?_, by rw [InRange, hfreq]; omega⟩
    rw [eq_ofNat_of_toInt hnat hlt]
    exact accepted_pow ⟨n, by omega⟩
  · rintro ⟨haccepted, hpos, hle⟩
    obtain ⟨m, hm⟩ := Int.eq_ofNat_of_zero_le (by omega : 0 ≤ freq.toInt)
    rw [eq_ofNat_of_toInt hm (by omega)] at haccepted
    obtain ⟨i, hi⟩ := pow_of_accepted ⟨m, by omega⟩ (by dsimp only; omega) haccepted
    refine ⟨i, by omega, ?_⟩
    rw [hm, show m = 2 ^ i.val from hi, Nat.cast_pow, Nat.cast_ofNat]

/-- At such a rate `rtc_read` waits for one interrupt at least. -/
lemma InRange.one_le_div {freq : Int32} (h : InRange freq) : 1 ≤ (512 / freq).toInt := by
  obtain ⟨hpos, hle⟩ := h
  have hne : freq ≠ -1 := by
    rintro rfl
    exact absurd hpos (by decide)
  have h512 : (512 : Int32).toInt = 512 := by decide
  rw [Int32.toInt_div_of_ne_right _ _ hne, h512, Int.tdiv_eq_ediv_of_nonneg (by norm_num)]
  exact (Int.le_ediv_iff_mul_le (by omega)).2 (by omega)

end Rtc

/-! ### Calls of the driver -/

/-- A call of the driver that sets the rate of a terminal. -/
inductive RtcCall
  | rtcOpen
  | rtcWrite (buf : Buf)

/-- The driver, and the terminals for which a call has been accepted.  Only these have a
descriptor for `rtc_read`. -/
structure RtcDriver where
  rtc : Rtc
  rated : ℕ → Prop

/-- The driver at boot. -/
def RtcDriver.boot : RtcDriver := ⟨⟨fun _ => 0, fun _ => 0⟩, fun _ => False⟩

namespace RtcCall

/-- The result of a call on the terminal `t`, and the rates after it. -/
def result (t : ℕ) (r : Rtc) : RtcCall → Int32 × Rtc
  | .rtcOpen => (0, r.rtcOpen t)
  | .rtcWrite buf => r.rtcWrite t buf

/-- A call on the terminal `t`. -/
def step (t : ℕ) (c : RtcCall) (s : RtcDriver) : RtcDriver where
  rtc := (c.result t s.rtc).2
  rated t' := s.rated t' ∨ t' = t ∧ (c.result t s.rtc).1 = 0

/-- A rate that is not supported is refused. -/
def Refuses (t : ℕ) (r : Rtc) : RtcCall → Prop
  | .rtcOpen => True
  | .rtcWrite buf => ¬Rtc.Supported (Rtc.word buf) → r.rtcWrite t buf = (-1, r)

/-- What the call accepts lies in range. -/
def RateOk : RtcCall → Prop
  | .rtcOpen => True
  | .rtcWrite buf => Rtc.Accepted (Rtc.word buf) → Rtc.InRange (Rtc.word buf)

end RtcCall

/-- The next `rtc_read` of a terminal with a rate divides by a number other than zero, and it
waits for one interrupt at least. -/
def RtcDriver.Usable (s : RtcDriver) : Prop :=
  ∀ t, s.rated t → s.rtc.freq t ≠ 0 ∧ ∃ r, s.rtc.rtcRead t = some r ∧ 1 ≤ (r.counter t).toInt

/-- Before and after every call of the sequence the rates are usable, and every call refuses the
rates that are not. -/
def RatesUsable : List (ℕ × RtcCall) → RtcDriver → Prop
  | [], s => s.Usable
  | (t, c) :: cs, s => s.Usable ∧ c.Refuses t s.rtc ∧ RatesUsable cs (c.step t s)

/-! ### One call, and every sequence of calls -/

/-- The rates of the terminals that have one lie in range. -/
def RtcDriver.InRange (s : RtcDriver) : Prop := ∀ t, s.rated t → Rtc.InRange (s.rtc.freq t)

lemma RtcDriver.InRange.usable {s : RtcDriver} (h : s.InRange) : s.Usable := by
  intro t ht
  have hrange := h t ht
  have hne : s.rtc.freq t ≠ 0 := by
    intro h0
    rw [h0] at hrange
    exact absurd hrange.1 (by decide)
  refine ⟨hne, _, if_neg hne, ?_⟩
  dsimp only
  rw [Function.update_self]
  exact hrange.one_le_div

section

variable {t : ℕ} {c : RtcCall} {s : RtcDriver}

lemma rtcWrite_of_accepted {buf : Buf} (h : Rtc.Accepted (Rtc.word buf)) (r : Rtc) :
    r.rtcWrite t buf = (0, { r with freq := Function.update r.freq t (Rtc.word buf) }) :=
  if_neg (not_not.2 h)

lemma rtcWrite_of_refused {buf : Buf} (h : ¬Rtc.Accepted (Rtc.word buf)) (r : Rtc) :
    r.rtcWrite t buf = (-1, r) := if_pos h

/-- The rates after an accepted call. -/
lemma inRange_update (h : s.InRange) {freq : Int32} (hfreq : Rtc.InRange freq) {rated : ℕ → Prop}
    (hrated : ∀ t', rated t' → s.rated t' ∨ t' = t) :
    RtcDriver.InRange ⟨{ s.rtc with freq := Function.update s.rtc.freq t freq }, rated⟩ := by
  intro t' ht'
  dsimp only
  by_cases heq : t' = t
  · rw [heq, Function.update_self]
    exact hfreq
  · rw [Function.update_of_ne heq]
    exact h t' ((hrated t' ht').resolve_right heq)

/-- **The step lemma.** -/
lemma RtcDriver.InRange.step (h : s.InRange) (hc : c.RateOk) : (c.step t s).InRange := by
  cases c with
  | rtcOpen => exact inRange_update h (by decide) fun t' ht' => ht'.imp_right And.left
  | rtcWrite buf =>
    rw [RtcCall.step, RtcCall.result]
    by_cases haccepted : Rtc.Accepted (Rtc.word buf)
    · rw [rtcWrite_of_accepted haccepted]
      exact inRange_update h (hc haccepted) fun t' ht' => ht'.imp_right And.left
    · rw [rtcWrite_of_refused haccepted]
      intro t' ht'
      refine h t' (ht'.resolve_right ?_)
      rintro ⟨-, hret⟩
      have hminus : (-1 : Int32) = 0 := hret
      exact absurd hminus (by decide)

/-- A call refuses what it should exactly when what it accepts lies in range. -/
lemma RtcCall.refuses_iff (c : RtcCall) (r : Rtc) : c.Refuses t r ↔ c.RateOk := by
  cases c with
  | rtcOpen => exact Iff.rfl
  | rtcWrite buf =>
    rw [RtcCall.Refuses, RtcCall.RateOk, Rtc.supported_iff]
    by_cases haccepted : Rtc.Accepted (Rtc.word buf)
    · constructor
      · intro hrefuses _
        by_contra hrange
        have hret := hrefuses fun h => hrange h.2
        rw [rtcWrite_of_accepted haccepted] at hret
        exact absurd (Prod.mk.inj hret).1 (by decide)
      · intro hok hnot
        exact absurd ⟨haccepted, hok haccepted⟩ hnot
    · exact ⟨fun _ h => absurd h haccepted, fun _ _ => rtcWrite_of_refused haccepted r⟩

end

lemma ratesUsable_iff (calls : List (ℕ × RtcCall)) {s : RtcDriver} (h : s.InRange) :
    RatesUsable calls s ↔ ∀ x ∈ calls, x.2.RateOk := by
  induction calls generalizing s with
  | nil => exact ⟨fun _ _ hx => absurd hx List.not_mem_nil, fun _ => h.usable⟩
  | cons x calls ih =>
    obtain ⟨t, c⟩ := x
    rw [RatesUsable, RtcCall.refuses_iff, List.forall_mem_cons]
    constructor
    · rintro ⟨-, hok, hrest⟩
      exact ⟨hok, (ih (h.step hok)).1 hrest⟩
    · rintro ⟨hok, hrest⟩
      exact ⟨h.usable, hok, (ih (h.step hok)).2 hrest⟩

/-- **Every accepted rate is usable**, in every sequence of calls on any terminals, exactly when
every rate that is written and passes the test lies between 1 and 512. -/
theorem rates_usable (calls : List (ℕ × RtcCall)) :
    RatesUsable calls RtcDriver.boot ↔
      ∀ t buf, (t, RtcCall.rtcWrite buf) ∈ calls →
        Rtc.Accepted (Rtc.word buf) → Rtc.InRange (Rtc.word buf) := by
  rw [ratesUsable_iff calls fun t ht => absurd ht id]
  constructor
  · exact fun h t buf hmem => h (t, .rtcWrite buf) hmem
  · rintro h ⟨t, c⟩ hmem
    cases c with
    | rtcOpen => trivial
    | rtcWrite buf => exact h t buf hmem

/-- The rate 0 is accepted, and the next read divides by it. -/
theorem rate_zero_accepted :
    ¬∀ calls : List (ℕ × RtcCall), RatesUsable calls RtcDriver.boot := by
  intro h
  obtain ⟨-, -, -, -, husable⟩ := h [(0, .rtcOpen), (0, .rtcWrite fun _ => 0)]
  exact absurd rfl (husable 0 (Or.inl (Or.inr ⟨rfl, rfl⟩))).1

end WnajOS
