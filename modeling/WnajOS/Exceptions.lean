import WnajOS.Arrays

/-!
# Exceptions (`e_handler.c`)

The exceptions that the interrupt table has a handler for, and what `report_error` prints about
them.
-/

namespace WnajOS

/-- The exceptions with a handler of their own, by the names of the handlers. -/
inductive Exception
  | divideError
  | debugException
  | nmiException
  | breakpointException
  | overflowException
  | oobExceeeded
  | invalidOpcode
  | deviceUnavailable
  | doubleFault
  | segmentOverrun
  | invalidTss
  | segmentNotPresent
  | stackSegmentFault
  | generalProtectionFault
  | pageFault
  | floatingPtException
  | alignmentCheck
  | machineCheck
  | simdFloatingPtException
deriving DecidableEq

namespace Exception

/-- The message that a handler hands to `report_error`. -/
def message : Exception → Str
  | divideError => text "divide error\n"
  | debugException => text "debug exception error\n"
  | nmiException => text "nmi exception\n"
  | breakpointException => text "break point exception\n"
  | overflowException => text "overflow exception\n"
  | oobExceeeded => text "out of bounds exception\n"
  | invalidOpcode => text "invalid opcode exception\n"
  | deviceUnavailable => text "device unavailable exception\n"
  | doubleFault => text "double fault exception\n"
  | segmentOverrun => text "segment overrun exception\n"
  | invalidTss => text "invalid tss exception\n"
  | segmentNotPresent => text "segment not present exception\n"
  | stackSegmentFault => text "stack segment fault exception\n"
  | generalProtectionFault => text "general protection fault exception\n"
  | pageFault => text "page fault exception\n"
  | floatingPtException => text "floating point exception\n"
  | alignmentCheck => text "alignment check exception\n"
  | machineCheck => text "machine check exception\n"
  | simdFloatingPtException => text "floating point exception\n"

/-- What `report_error` prints when `n` more texts follow. -/
def report (e : Exception) : ℕ → Str
  | 0 => text "--------BAD VIBES--------\n"
  | 1 => e.message
  | _ => text "---EXCEPTION OCCURED-----\n"

/-- The texts have nothing in them that is not printed as it is, but for the newline at the end. -/
lemma report_printed (e : Exception) (n : ℕ) : (e.report n).length < 64 ∧
    ∀ c ∈ e.report n, c ≠ 0 ∧ c ≠ 8 := by
  match n with
  | 0 =>
    rw [report]
    decide +kernel
  | 1 => cases e <;> decide +kernel
  | n + 2 =>
    have hheader : (text "---EXCEPTION OCCURED-----\n").length < 64 ∧
        ∀ c ∈ text "---EXCEPTION OCCURED-----\n", c ≠ 0 ∧ c ≠ 8 := by decide +kernel
    exact hheader

end Exception

end WnajOS
