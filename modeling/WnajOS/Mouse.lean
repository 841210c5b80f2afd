import WnajOS.Lib

/-!
# The handshake with the PS/2 controller (`mouse.c`)

A byte may be sent to the controller while its input buffer is empty, and read from it while its
output buffer is full; bits 1 and 0 of the status at port `0x64` tell.  The two loops that wait
for them or the bit to the status instead of testing it, so `mouse_wait_write` never finds what
it waits for and `mouse_wait_read` always does.

The controller is the sequence of its answers: `status i` is what the read number `i` of port
`0x64` returns.
-/

namespace WnajOS

/-- The limit of both loops. -/
@[irreducible] def pollBudget : ℕ := 100000

/-- The loop of `mouse_wait_write`, with `n` turns left, before the read number `i`: the statuses
it reads. -/
def waitWriteFrom (status : ℕ → UInt8) : (n i : ℕ) → List UInt8
  | 0, _ => []
  | n + 1, i =>
    if (status i ||| 0x02) = 0 then [status i] else status i :: waitWriteFrom status n (i + 1)

/-- `mouse_wait_write`. -/
def mouseWaitWrite (status : ℕ → UInt8) (i : ℕ) : List UInt8 := waitWriteFrom status pollBudget i

/-- The loop of `mouse_wait_read`. -/
def waitReadFrom (status : ℕ → UInt8) : (n i : ℕ) → List UInt8
  | 0, _ => []
  | n + 1, i =>
    if (status i ||| 0x01) ≠ 0 then [status i] else status i :: waitReadFrom status n (i + 1)

/-- `mouse_wait_read`. -/
def mouseWaitRead (status : ℕ → UInt8) (i : ℕ) : List UInt8 := waitReadFrom status pollBudget i

/-- An access to a port of the controller. -/
inductive PortAccess
  /-- `inb(0x64)` and its result -/
  | status (b : UInt8)
  /-- `outb(b, 0x64)` -/
  | command (b : UInt8)
  /-- `outb(b, 0x60)` -/
  | data (b : UInt8)
  /-- `inb(0x60)` -/
  | acknowledge

/-- `mouse_write`, before the read number `i`. -/
def mouseWrite (status : ℕ → UInt8) (byte : UInt8) (i : ℕ) : List PortAccess :=
  let first := mouseWaitWrite status i
  let second := mouseWaitWrite status (i + first.length)
  let third := mouseWaitRead status (i + first.length + second.length)
  first.map .status ++ .command 0xD4 :: (second.map .status ++ .data byte ::
    (third.map .status ++ [.acknowledge]))

/-! ### The handshake -/

/-- Bit 1 of the status is clear. -/
def InputEmpty (b : UInt8) : Prop := b &&& 0x02 = 0

/-- Bit 0 of the status is set. -/
def OutputFull (b : UInt8) : Prop := b &&& 0x01 ≠ 0

instance : DecidablePred InputEmpty := fun b => inferInstanceAs (Decidable (b &&& 0x02 = 0))

instance : DecidablePred OutputFull := fun b => inferInstanceAs (Decidable (b &&& 0x01 ≠ 0))

/-- A loop has read the statuses `bs` and used up its budget without finding what it waits for. -/
def Exhausted (ready : UInt8 → Prop) (bs : List UInt8) : Prop :=
  bs.length = pollBudget ∧ ∀ b ∈ bs, ¬ready b

/-- A loop has read the statuses `bs` and ends with the first one that it waits for, or with its
budget. -/
def EndsAtFirst (ready : UInt8 → Prop) (bs : List UInt8) : Prop :=
  (∃ b, bs.getLast? = some b ∧ ready b ∧ ∀ b' ∈ bs.dropLast, ¬ready b') ∨ Exhausted ready bs

/-- The status that was read last allows an access, unless the loop before it was exhausted. -/
def Allowed (ready : UInt8 → Prop) (bs : List UInt8) : Prop :=
  (∃ b, bs.getLast? = some b ∧ ready b) ∨ Exhausted ready bs

/-- Every access is allowed; `bs` are the statuses read since the last one. -/
def Handshake : (bs : List UInt8) → List PortAccess → Prop
  | _, [] => True
  | bs, .status b :: rest => Handshake (bs ++ [b]) rest
  | bs, .command _ :: rest => Allowed InputEmpty bs ∧ Handshake [] rest
  | bs, .data _ :: rest => Allowed InputEmpty bs ∧ Handshake [] rest
  | bs, .acknowledge :: rest => Allowed OutputFull bs ∧ Handshake [] rest

/-- Both loops end as they should, and `mouse_write` keeps the handshake. -/
structure ControllerOk (status : ℕ → UInt8) (byte : UInt8) (i : ℕ) : Prop where
  waitWrite : EndsAtFirst InputEmpty (mouseWaitWrite status i)
  waitRead : EndsAtFirst OutputFull (mouseWaitRead status i)
  write : Handshake [] (mouseWrite status byte i)

/-- The statuses with which this is so: the input buffer is full at the first 99999 polls, each
wait for it ends with an empty buffer or has not seen one, and the output buffer is full at the
first poll for it. -/
structure PollsOk (status : ℕ → UInt8) (i : ℕ) : Prop where
  busy : ∀ j < pollBudget - 1, ¬InputEmpty (status (i + j))
  second : InputEmpty (status (i + 2 * pollBudget - 1)) ∨
    ∀ j < pollBudget, ¬InputEmpty (status (i + pollBudget + j))
  waitRead : OutputFull (status i)
  third : OutputFull (status (i + 2 * pollBudget))

/-! ### The loops -/

lemma one_lt_pollBudget : 1 < pollBudget := by
  rw [pollBudget]
  norm_num

lemma pollBudget_eq : pollBudget = pollBudget - 1 + 1 :=
  (Nat.sub_add_cancel one_lt_pollBudget.le).symm

/-- The next `n` statuses. -/
def nextStatuses (status : ℕ → UInt8) (i n : ℕ) : List UInt8 :=
  (List.range n).map fun j => status (i + j)

variable {status : ℕ → UInt8} {i n : ℕ}

lemma mem_nextStatuses {b : UInt8} :
    b ∈ nextStatuses status i n ↔ ∃ j < n, status (i + j) = b := by
  simp [nextStatuses]

lemma nextStatuses_succ : nextStatuses status i (n + 1)
    = nextStatuses status i n ++ [status (i + n)] := by
  rw [nextStatuses, List.range_succ, List.map_append]
  rfl

/-- `mouse_wait_write` always uses its budget. -/
lemma waitWriteFrom_eq (n i : ℕ) : waitWriteFrom status n i = nextStatuses status i n := by
  induction n generalizing i with
  | zero => rfl
  | succ n ih =>
    have hnever : ¬(status i ||| 0x02) = 0 := by simp [UInt8.or_eq_zero_iff]
    rw [waitWriteFrom, if_neg hnever, ih, nextStatuses, nextStatuses, List.range_succ_eq_map,
      List.map_cons, List.map_map]
    congr 2
    funext j
    exact congrArg status (by simp only [Nat.succ_eq_add_one]; omega)

/-- `mouse_wait_read` always reads one status. -/
lemma waitReadFrom_eq (n i : ℕ) : waitReadFrom status (n + 1) i = [status i] := by
  have halways : (status i ||| 0x01) ≠ 0 := by simp [UInt8.or_eq_zero_iff]
  rw [waitReadFrom, if_pos halways]

lemma mouseWaitWrite_eq (status : ℕ → UInt8) (i : ℕ) :
    mouseWaitWrite status i = nextStatuses status i pollBudget :=
  waitWriteFrom_eq pollBudget i

lemma mouseWaitRead_eq (status : ℕ → UInt8) (i : ℕ) : mouseWaitRead status i = [status i] := by
  rw [mouseWaitRead, pollBudget_eq, waitReadFrom_eq]

/-- The budget is used up when no status was the one waited for. -/
lemma exhausted_nextStatuses {ready : UInt8 → Prop} : Exhausted ready
    (nextStatuses status i pollBudget) ↔ ∀ j < pollBudget, ¬ready (status (i + j)) := by
  rw [Exhausted]
  constructor
  · rintro ⟨-, hall⟩ j hj
    exact hall _ (mem_nextStatuses.2 ⟨j, hj, rfl⟩)
  · intro hall
    refine ⟨by simp [nextStatuses], fun b hb => ?_⟩
    obtain ⟨j, hj, rfl⟩ := mem_nextStatuses.1 hb
    exact hall j hj

/-- The last status of a full budget. -/
lemma getLast?_nextStatuses : (nextStatuses status i pollBudget).getLast?
    = some (status (i + (pollBudget - 1))) := by
  conv_lhs => rw [pollBudget_eq]
  rw [nextStatuses_succ, List.getLast?_concat]

/-- A loop that uses its budget has ended at the first status exactly when none but the last was
the one waited for. -/
lemma endsAtFirst_nextStatuses {ready : UInt8 → Prop} : EndsAtFirst ready
    (nextStatuses status i pollBudget) ↔ ∀ j < pollBudget - 1, ¬ready (status (i + j)) := by
  have hdrop : (nextStatuses status i pollBudget).dropLast
      = nextStatuses status i (pollBudget - 1) := by
    conv_lhs => rw [pollBudget_eq]
    rw [nextStatuses_succ, List.dropLast_concat]
  rw [EndsAtFirst, exhausted_nextStatuses, hdrop, getLast?_nextStatuses]
  constructor
  · rintro (⟨b, -, -, hall⟩ | hall) j hj
    · exact hall _ (mem_nextStatuses.2 ⟨j, hj, rfl⟩)
    · exact hall j (by omega)
  · intro hall
    by_cases hlast : ready (status (i + (pollBudget - 1)))
    · refine Or.inl ⟨_, rfl, hlast, fun b hb => ?_⟩
      obtain ⟨j, hj, rfl⟩ := mem_nextStatuses.1 hb
      exact hall j hj
    · refine Or.inr fun j hj => ?_
      by_cases hj' : j = pollBudget - 1
      · rw [hj']
        exact hlast
      · exact hall j (by omega)

lemma allowed_nextStatuses {ready : UInt8 → Prop} : Allowed ready
    (nextStatuses status i pollBudget) ↔ ready (status (i + (pollBudget - 1))) ∨
      ∀ j < pollBudget, ¬ready (status (i + j)) := by
  rw [Allowed, exhausted_nextStatuses, getLast?_nextStatuses]
  simp

/-- One status does not use up the budget. -/
lemma not_exhausted_singleton {ready : UInt8 → Prop} (b : UInt8) : ¬Exhausted ready [b] :=
  fun h => one_lt_pollBudget.ne h.1

/-! ### `mouse_write` -/

lemma handshake_status (bs bs' : List UInt8) (rest : List PortAccess) :
    Handshake bs (bs'.map .status ++ rest) ↔ Handshake (bs ++ bs') rest := by
  induction bs' generalizing bs with
  | nil => simp
  | cons b bs' ih =>
    rw [List.map_cons, List.cons_append, Handshake, ih, List.append_assoc]
    rfl

/-- Three waits with an access after each. -/
lemma handshake_waits (bs₁ bs₂ bs₃ : List UInt8) (cmd byte : UInt8) :
    Handshake [] (bs₁.map PortAccess.status ++ PortAccess.command cmd ::
      (bs₂.map PortAccess.status ++ PortAccess.data byte ::
        (bs₃.map PortAccess.status ++ [PortAccess.acknowledge]))) ↔
      Allowed InputEmpty bs₁ ∧ Allowed InputEmpty bs₂ ∧ Allowed OutputFull bs₃ := by
  rw [handshake_status, Handshake, handshake_status, Handshake, handshake_status, Handshake,
    Handshake, and_true]
  rfl

/-- What `mouse_write` asks of the statuses. -/
lemma handshake_mouseWrite (byte : UInt8) (i : ℕ) : Handshake [] (mouseWrite status byte i) ↔
    Allowed InputEmpty (nextStatuses status i pollBudget) ∧
      Allowed InputEmpty (nextStatuses status (i + pollBudget) pollBudget) ∧
      OutputFull (status (i + 2 * pollBudget)) := by
  have hlength : ∀ i, (nextStatuses status i pollBudget).length = pollBudget := by
    simp [nextStatuses]
  have hindex : i + pollBudget + pollBudget = i + 2 * pollBudget := by omega
  have hlast : Allowed OutputFull [status (i + 2 * pollBudget)] ↔
      OutputFull (status (i + 2 * pollBudget)) := by
    simp [Allowed, not_exhausted_singleton]
  have hfirst := mouseWaitWrite_eq status i
  have hsecond := mouseWaitWrite_eq status (i + pollBudget)
  have hthird := mouseWaitRead_eq status (i + 2 * pollBudget)
  rw [mouseWrite, handshake_waits, hfirst, hlength, hsecond, hlength, hindex, hthird, hlast]

/-- **The handshake with the controller** is kept exactly when the statuses happen to suit the
fixed numbers of polls. -/
theorem controller_handshake (status : ℕ → UInt8) (byte : UInt8) (i : ℕ) :
    ControllerOk status byte i ↔ PollsOk status i := by
  have hread : EndsAtFirst OutputFull [status i] ↔ OutputFull (status i) := by
    simp [EndsAtFirst, not_exhausted_singleton]
  have hsecond : i + pollBudget + (pollBudget - 1) = i + 2 * pollBudget - 1 := by
    have hpos := one_lt_pollBudget
    omega
  have hpolls : Allowed InputEmpty (nextStatuses status (i + pollBudget) pollBudget) ↔ _ :=
    allowed_nextStatuses
  rw [hsecond] at hpolls
  constructor
  · rintro ⟨hwrite, hwait, hhandshake⟩
    rw [mouseWaitWrite_eq, endsAtFirst_nextStatuses] at hwrite
    rw [mouseWaitRead_eq, hread] at hwait
    obtain ⟨-, hallowed, hthird⟩ := (handshake_mouseWrite byte i).1 hhandshake
    exact ⟨hwrite, hpolls.1 hallowed, hwait, hthird⟩
  · rintro ⟨hbusy, htwo, hwait, hthird⟩
    have hends := endsAtFirst_nextStatuses.2 hbusy
    refine ⟨?_, ?_, (handshake_mouseWrite byte i).2 ⟨?_, hpolls.2 htwo, hthird⟩⟩
    · rw [mouseWaitWrite_eq]
      exact hends
    · rw [mouseWaitRead_eq, hread]
      exact hwait
    · exact hends.imp_left fun ⟨b, hb, hready, _⟩ => ⟨b, hb, hready⟩

/-- With a controller that never has anything to read, `mouse_wait_read` ends at once. -/
theorem controller_not_awaited : ¬∀ (status : ℕ → UInt8) (byte : UInt8) (i : ℕ),
    ControllerOk status byte i := by
  intro h
  have hread := (h (fun _ => 0) 0xF4 0).waitRead
  rw [mouseWaitRead_eq, EndsAtFirst] at hread
  rcases hread with ⟨b, hb, hfull, -⟩ | hexhausted
  · obtain rfl : 0 = b := by simpa using hb
    exact absurd rfl hfull
  · exact not_exhausted_singleton _ hexhausted

end WnajOS
