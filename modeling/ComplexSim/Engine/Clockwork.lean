import ComplexSim.Engine.Basic

/-!
# The handshake of the engine and the controller

What makes the two threads keep step: the barrier of the timer, at which they meet once
a tick, and `last_completion` with its condition variable, on which the engine waits for
the controller within a tick. `Clockwork` keeps only this of a run. The controller skips
a tick, going back to the barrier without a signal, when that tick comes before its
start time; here that is before 1, and the invariant excludes it.

`EngineOk` and `CtlOk` say what holds at each place of the two threads. The last
completion is the clock's value while the controller is ready for the next tick and
one less while it works on this one; the engine gets to the barrier only after it.
-/

namespace ComplexSim.Engine

section Pair

/-- The actor that `a` waits for. -/
def Actor.other : Actor → Actor
  | .engine => .controller
  | .controller => .engine

@[simp] theorem Actor.other_ne (a : Actor) : a.other ≠ a := by cases a <;> nofun

/-- A barrier for two: at most one of them is blocked, and `sync` counts it until the timer
is stopped. -/
structure Paired (b : Barrier Actor) : Prop where
  nSync : b.timer.nSync = 2
  sync : b.timer.stop = false → b.timer.sync =
    (if b.place .engine = .blocked then 1 else 0) + if b.place .controller = .blocked then 1 else 0
  apart : ∀ a, b.place a = .blocked → b.place a.other ≠ .blocked
  stopped : b.timer.stop = true → ∀ a, b.place a ≠ .blocked

/-- How `cs_time_sync` begins for one of two actors. -/
inductive Entered (b : Barrier Actor) (a : Actor) : Barrier Actor → Option Int → Prop where
  | stopped (hstop : b.timer.stop = true) : Entered b a b (some (-1))
  | last (b' : Barrier Actor) (hstop : b.timer.stop = false) (hother : b.place a.other = .blocked)
      (hclock : b'.timer.clock = b.timer.clock + 1) (hstop' : b'.timer.stop = false)
      (hplace : b'.place a = .out) (hother' : b'.place a.other = .released) : Entered b a b' (some 0)
  | first (b' : Barrier Actor) (hstop : b.timer.stop = false) (hother : b.place a.other ≠ .blocked)
      (hclock : b'.timer.clock = b.timer.clock) (hstop' : b'.timer.stop = false)
      (hplace : b'.place a = .blocked) (hother' : b'.place a.other = b.place a.other) :
      Entered b a b' none

variable {b b' : Barrier Actor} {a : Actor}

theorem Paired.init : Paired { timer := csInitTimer, place := fun _ => .out } where
  nSync := rfl
  sync := fun _ => rfl
  apart := by simp
  stopped := by simp

theorem Paired.enter (h : Paired b) (hout : b.place a = .out) {r : Option Int}
    (henter : b.enter a = (b', r)) : Paired b' ∧ Entered b a b' r := by
  have hactor : ∀ c, c = a ∨ c = a.other := fun c => by cases a <;> cases c <;> simp [Actor.other]
  have hnsync := h.nSync
  have hsync : b.timer.stop = false → b.timer.sync = if b.place a.other = .blocked then 1 else 0 := by
    intro hrun
    rw [h.sync hrun]
    cases a <;> rw [hout] <;> simp [Actor.other] <;> rfl
  cases Barrier.Entered.of henter with
  | stopped hstop => exact ⟨h, .stopped hstop⟩
  | overrun hrun hfull =>
      have hsync := hsync hrun
      split at hsync <;> omega
  | last hrun hlast =>
      have hother : b.place a.other = .blocked := by
        by_contra hother
        have hsync := hsync hrun
        rw [if_neg hother] at hsync
        omega
      refine ⟨⟨hnsync, by simp, by simp, by simp⟩, .last _ hrun hother rfl hrun ?_ ?_⟩
      · simp [hout, Place.wake]
      · simp [hother, Place.wake]
  | first hrun _ hmore =>
      have hother : b.place a.other ≠ .blocked := by
        intro hother
        have hsync := hsync hrun
        rw [if_pos hother] at hsync
        omega
      have hsync := hsync hrun
      rw [if_neg hother] at hsync
      refine ⟨⟨hnsync, fun _ => ?_, fun c hc => ?_, fun hs => ?_⟩, .first _ hrun hother rfl hrun (by simp) (by simp)⟩
      · cases a <;> simp_all [Actor.other]
      · rcases hactor c with rfl | rfl
        · simpa using hother
        · exact absurd (by simpa using hc) hother
      · have hs : b.timer.stop = true := hs
        rw [hrun] at hs
        cases hs

theorem Paired.leave (h : Paired b) {r : Int} (hleave : b.leave a = some (b', r)) :
    Paired b' ∧ b.place a = .released ∧ r = 0 ∧ b'.timer = b.timer ∧ b'.place a = .out ∧
      b'.place a.other = b.place a.other := by
  obtain ⟨hrel, rfl, rfl⟩ := Barrier.leave_cases hleave
  have hblocked : ∀ c, Function.update b.place a .out c = .blocked ↔ b.place c = .blocked := fun c => by
    by_cases hc : c = a
    · subst hc; simp [hrel]
    · simp [hc]
  refine ⟨⟨h.nSync, fun hs => ?_, fun c hc => ?_, fun hs c => ?_⟩, hrel, rfl, rfl, by simp, by simp⟩
  · simp only [hblocked]
    exact h.sync hs
  · exact fun ho => h.apart c ((hblocked c).1 hc) ((hblocked _).1 ho)
  · exact fun hc => h.stopped hs c ((hblocked c).1 hc)

theorem Paired.timeStop (h : Paired b) : Paired b.timeStop where
  nSync := h.nSync
  sync := nofun
  apart := by simp [Barrier.timeStop]
  stopped := by simp [Barrier.timeStop]

end Pair

/-- The places of the engine that the handshake tells apart. -/
inductive EngineStage where
  /-- before `cs_time_sync`, with the tick of the clock completed -/
  | behind
  | inSync
  /-- past `cs_time_sync` -/
  | passed
  /-- past the `cs_get_clock` after it -/
  | late
  /-- in the wait of `wait_event_completion` -/
  | waiting
  /-- before `cs_evm_stop_controller` -/
  | stopping
  /-- before `cs_time_stop` -/
  | halting
  /-- before the closing assertion -/
  | closing
  | stopped
  deriving DecidableEq, Repr

/-- The places of the controller that the handshake tells apart. -/
inductive CtlStage where
  /-- before `cs_time_sync`, with the tick of the clock signalled -/
  | ready
  | inSync
  /-- past `cs_time_sync` -/
  | ticked
  /-- before the stop test -/
  | testing
  /-- from the stop test to the signal -/
  | busy
  | left
  deriving DecidableEq, Repr

/-- The handshake of the two threads. -/
structure Clockwork where
  timer : Barrier Actor
  lastCompletion : Int
  stop : Bool
  waitCond : Place
  engine : EngineStage
  engineTime : Int
  ctl : CtlStage
  ctlTime : Int

namespace Clockwork

/-- What the two threads do to it. -/
inductive Step (c : Clockwork) : Clockwork → Prop where
  | stay : Step c c
  | engineTime (t : Int) (h : c.engine = .behind) : Step c { c with engineTime := t }
  | setNsync (h : c.engine = .behind) :
      Step c { c with timer := { c.timer with timer := csSetNsync c.timer.timer 2 } }
  | enginePass (b : Barrier Actor) (r : Int) (h : c.engine = .behind)
      (henter : c.timer.enter .engine = (b, some r)) : Step c { c with timer := b, engine := .passed }
  | engineArrive (b : Barrier Actor) (h : c.engine = .behind)
      (henter : c.timer.enter .engine = (b, none)) : Step c { c with timer := b, engine := .inSync }
  | engineLeave (b : Barrier Actor) (r : Int) (h : c.engine = .inSync)
      (hleave : c.timer.leave .engine = some (b, r)) : Step c { c with timer := b, engine := .passed }
  | engineClock (l : EngineStage) (h : c.engine = .passed) (hl : l = .late ∨ l = .stopping) :
      Step c { c with engineTime := c.timer.timer.clock, engine := l }
  | wait (h : c.engine = .late) (hlt : c.lastCompletion < c.engineTime) :
      Step c { c with waitCond := .blocked, engine := .waiting }
  | completed (h : c.engine = .late) (hge : c.engineTime ≤ c.lastCompletion) :
      Step c { c with engine := .behind }
  | woken (h : c.engine = .waiting) (hwoken : c.waitCond = .released) :
      Step c { c with waitCond := .out, engine := .behind }
  | stopController (h : c.engine = .stopping) : Step c { c with stop := true, engine := .halting }
  | timeStop (h : c.engine = .halting) : Step c { c with timer := c.timer.timeStop, engine := .closing }
  | close (h : c.engine = .closing) : Step c { c with engine := .stopped }
  | finiStop (h : c.engine = .stopped) : Step c { c with stop := true }
  | ctlTime (t : Int) (h : c.ctl = .ready) : Step c { c with ctlTime := t }
  | ctlPass (b : Barrier Actor) (r : Int) (h : c.ctl = .ready)
      (henter : c.timer.enter .controller = (b, some r)) :
      Step c { c with timer := b, ctl := if r < 0 then .left else .ticked }
  | ctlArrive (b : Barrier Actor) (h : c.ctl = .ready)
      (henter : c.timer.enter .controller = (b, none)) : Step c { c with timer := b, ctl := .inSync }
  | ctlLeave (b : Barrier Actor) (r : Int) (h : c.ctl = .inSync)
      (hleave : c.timer.leave .controller = some (b, r)) :
      Step c { c with timer := b, ctl := if r < 0 then .left else .ticked }
  | ctlClock (h : c.ctl = .ticked) : Step c { c with ctlTime := c.timer.timer.clock, ctl := .testing }
  | stops (h : c.ctl = .testing) (hstop : c.stop = true) : Step c { c with ctl := .left }
  | early (h : c.ctl = .testing) (hlt : c.ctlTime < 1) : Step c { c with ctl := .ready }
  | goOn (h : c.ctl = .testing) (hstop : c.stop = false) : Step c { c with ctl := .busy }
  | signal (h : c.ctl = .busy) :
      Step c { c with lastCompletion := c.ctlTime, waitCond := c.waitCond.wake, ctl := .ready }

/-- The clock never goes back. -/
theorem Step.clock_mono {c c' : Clockwork} (h : c.Step c') : c.timer.timer.clock ≤ c'.timer.timer.clock := by
  cases h with
  | enginePass b r _ henter | ctlPass b r _ henter => exact Barrier.enter_clock henter
  | engineArrive b _ henter | ctlArrive b _ henter => exact Barrier.enter_clock henter
  | engineLeave b r _ hleave | ctlLeave b r _ hleave => exact (congrArg (·.clock) (Barrier.leave_timer hleave)).ge
  | _ => exact le_refl _

/-- The engine, where the clock shows `t`. -/
def EngineOk (c : Clockwork) (t : Int) : Prop :=
  match c.engine with
  | .behind => c.stop = false ∧ c.timer.timer.stop = false ∧ c.waitCond = .out ∧
      c.timer.place .engine = .out ∧ c.lastCompletion = t
  | .inSync => c.stop = false ∧ c.timer.timer.stop = false ∧ c.waitCond = .out ∧
      ((c.timer.place .engine = .blocked ∧ c.lastCompletion = t) ∨
        (c.timer.place .engine = .released ∧ 1 ≤ t))
  | .passed => c.stop = false ∧ c.timer.timer.stop = false ∧ c.waitCond = .out ∧
      c.timer.place .engine = .out ∧ 1 ≤ t
  | .late | .stopping => c.stop = false ∧ c.timer.timer.stop = false ∧ c.waitCond = .out ∧
      c.timer.place .engine = .out ∧ 1 ≤ t ∧ c.engineTime = t
  | .waiting => c.stop = false ∧ c.timer.timer.stop = false ∧ c.timer.place .engine = .out ∧ 1 ≤ t ∧
      c.engineTime = t ∧ ((c.waitCond = .blocked ∧ c.lastCompletion < t) ∨
        (c.waitCond = .released ∧ c.lastCompletion = t))
  | .halting => c.stop = true ∧ c.timer.timer.stop = false ∧ c.waitCond = .out ∧
      c.timer.place .engine = .out ∧ 1 ≤ t ∧ c.engineTime = t
  | .closing => c.stop = true ∧ c.timer.timer.stop = true ∧ c.waitCond = .out ∧
      c.timer.place .engine = .out ∧ c.engineTime = t
  | .stopped => c.stop = true ∧ c.timer.timer.stop = true ∧ c.waitCond = .out ∧
      c.timer.place .engine = .out

/-- The controller, where the clock shows `t`. -/
def CtlOk (c : Clockwork) (t : Int) : Prop :=
  match c.ctl with
  | .ready => c.timer.place .controller = .out ∧ c.lastCompletion = t
  | .inSync => (c.timer.place .controller = .blocked ∧ c.lastCompletion = t) ∨
      (c.timer.place .controller = .released ∧ 1 ≤ t ∧
        (c.lastCompletion = t - 1 ∨ c.stop = true ∧ c.lastCompletion = t))
  | .ticked => c.timer.place .controller = .out ∧ 1 ≤ t ∧
      (c.lastCompletion = t - 1 ∨ c.stop = true ∧ c.lastCompletion = t)
  | .testing => c.timer.place .controller = .out ∧ 1 ≤ t ∧ c.ctlTime = t ∧
      (c.lastCompletion = t - 1 ∨ c.stop = true ∧ c.lastCompletion = t)
  | .busy => c.timer.place .controller = .out ∧ 1 ≤ t ∧ c.ctlTime = t ∧ c.lastCompletion = t - 1
  | .left => c.timer.place .controller = .out ∧ c.stop = true

/-- **The invariant of the handshake.** -/
structure Inv (c : Clockwork) : Prop where
  pair : Paired c.timer
  nonneg : 0 ≤ c.timer.timer.clock
  le : c.lastCompletion ≤ c.timer.timer.clock
  engine : c.EngineOk c.timer.timer.clock
  ctl : c.CtlOk c.timer.timer.clock

section Places

variable {c c' : Clockwork} {t : Int}

/-- Only an engine in `cs_time_sync` is blocked there. -/
theorem EngineOk.of_blocked (h : c.EngineOk t) (hb : c.timer.place .engine = .blocked) :
    c.engine = .inSync ∧ c.stop = false ∧ c.timer.timer.stop = false ∧ c.waitCond = .out ∧
      c.lastCompletion = t := by
  unfold EngineOk at h
  cases hc : c.engine <;> simp only [hc, hb, reduceCtorEq, false_and, and_false] at h
  simpa using h

/-- Only a controller in `cs_time_sync` is blocked there. -/
theorem CtlOk.of_blocked (h : c.CtlOk t) (hb : c.timer.place .controller = .blocked) :
    c.ctl = .inSync ∧ c.lastCompletion = t := by
  unfold CtlOk at h
  cases hc : c.ctl <;> simp only [hc, hb, reduceCtorEq, false_and] at h
  simpa using h

/-- The controller is told to stop before the timer is. -/
theorem EngineOk.stop_of_timer (h : c.EngineOk t) (hstop : c.timer.timer.stop = true) :
    c.stop = true := by
  unfold EngineOk at h
  cases hc : c.engine <;> simp only [hc, hstop, reduceCtorEq, false_and, and_false] at h
  · exact h.1
  · exact h.1

/-- What the engine's places say does not depend on the controller's. -/
theorem EngineOk.congr (h : c.EngineOk t) (hengine : c'.engine = c.engine) (hstop : c'.stop = c.stop)
    (htimer : c'.timer.timer.stop = c.timer.timer.stop) (hwait : c'.waitCond = c.waitCond)
    (hplace : c'.timer.place .engine = c.timer.place .engine)
    (hlast : c'.lastCompletion = c.lastCompletion) (htime : c'.engineTime = c.engineTime) :
    c'.EngineOk t := by
  unfold EngineOk at *
  rw [hengine, hstop, htimer, hwait, hplace, hlast, htime]
  exact h

/-- What the controller's places say does not depend on the engine's; a stop request keeps it. -/
theorem CtlOk.congr (h : c.CtlOk t) (hctl : c'.ctl = c.ctl) (hstop : c.stop = true → c'.stop = true)
    (hplace : c'.timer.place .controller = c.timer.place .controller)
    (hlast : c'.lastCompletion = c.lastCompletion) (htime : c'.ctlTime = c.ctlTime) :
    c'.CtlOk t := by
  unfold CtlOk at *
  rw [hctl, hplace, hlast, htime]
  cases hc : c.ctl <;> simp only [hc] at h ⊢
  · exact h
  · exact h.imp_right fun h => ⟨h.1, h.2.1, h.2.2.imp_right fun h => ⟨hstop h.1, h.2⟩⟩
  · exact ⟨h.1, h.2.1, h.2.2.imp_right fun h => ⟨hstop h.1, h.2⟩⟩
  · exact ⟨h.1, h.2.1, h.2.2.1, h.2.2.2.imp_right fun h => ⟨hstop h.1, h.2⟩⟩
  · exact h
  · exact ⟨h.1, hstop h.2⟩

end Places

namespace Inv

variable {c c' : Clockwork}

/-- The engine enters the barrier. -/
theorem engineEnter (h : Inv c) (hc : c.engine = .behind) {b : Barrier Actor} {r : Option Int}
    (henter : c.timer.enter .engine = (b, r)) :
    Inv { c with timer := b, engine := if r = none then .inSync else .passed } := by
  have hok := h.engine
  have hnonneg := h.nonneg
  simp only [EngineOk, hc] at hok
  obtain ⟨hstop, htimer, hwait, hplace, hlast⟩ := hok
  obtain ⟨hpair, hentered⟩ := h.pair.enter hplace henter
  cases hentered with
  | stopped hs => simp [htimer] at hs
  | last _ _ hother hclock hstop' hplace' hother' =>
      -- the controller is blocked: both have completed the tick, and the clock goes on
      obtain ⟨hctl, -⟩ := h.ctl.of_blocked hother
      refine ⟨hpair, ?_, ?_, ?_, ?_⟩
      · show 0 ≤ b.timer.clock
        omega
      · show c.lastCompletion ≤ b.timer.clock
        omega
      · simp only [EngineOk, reduceCtorEq, if_false]
        exact ⟨hstop, hstop', hwait, hplace', by omega⟩
      · simp only [CtlOk, hctl]
        exact Or.inr ⟨hother', by omega, Or.inl (by omega)⟩
  | first _ _ hother hclock hstop' hplace' hother' =>
      refine ⟨hpair, ?_, ?_, ?_, ?_⟩
      · show 0 ≤ b.timer.clock
        omega
      · show c.lastCompletion ≤ b.timer.clock
        omega
      · simp only [EngineOk, if_pos]
        exact ⟨hstop, hstop', hwait, Or.inl ⟨hplace', by omega⟩⟩
      · rw [hclock]
        exact h.ctl.congr rfl id hother' rfl rfl

/-- The controller enters the barrier. -/
theorem ctlEnter (h : Inv c) (hc : c.ctl = .ready) {b : Barrier Actor} {r : Option Int}
    (henter : c.timer.enter .controller = (b, r)) :
    Inv { c with
      timer := b
      ctl := r.elim .inSync fun r => if r < 0 then .left else .ticked } := by
  have hok := h.ctl
  have hnonneg := h.nonneg
  simp only [CtlOk, hc] at hok
  obtain ⟨hplace, hlast⟩ := hok
  obtain ⟨hpair, hentered⟩ := h.pair.enter hplace henter
  cases hentered with
  | stopped hs =>
      refine ⟨hpair, hnonneg, h.le, h.engine, ?_⟩
      exact ⟨hplace, h.engine.stop_of_timer hs⟩
  | last _ _ hother hclock hstop' hplace' hother' =>
      obtain ⟨hengine, hstop, htimer, hwait, -⟩ := h.engine.of_blocked hother
      refine ⟨hpair, ?_, ?_, ?_, ?_⟩
      · show 0 ≤ b.timer.clock
        omega
      · show c.lastCompletion ≤ b.timer.clock
        omega
      · simp only [EngineOk, hengine]
        exact ⟨hstop, hstop', hwait, Or.inr ⟨hother', by omega⟩⟩
      · simp only [CtlOk, Option.elim_some, lt_self_iff_false, if_false]
        exact ⟨hplace', by omega, Or.inl (by omega)⟩
  | first _ hstop hother hclock hstop' hplace' hother' =>
      refine ⟨hpair, ?_, ?_, ?_, ?_⟩
      · show 0 ≤ b.timer.clock
        omega
      · show c.lastCompletion ≤ b.timer.clock
        omega
      · rw [hclock]
        exact h.engine.congr rfl rfl (hstop'.trans hstop.symm) rfl hother' rfl rfl
      · simp only [CtlOk, Option.elim_none]
        exact Or.inl ⟨hplace', by omega⟩

/-- The engine leaves the barrier. -/
theorem engineLeave (h : Inv c) (hc : c.engine = .inSync) {b : Barrier Actor} {r : Int}
    (hleave : c.timer.leave .engine = some (b, r)) : Inv { c with timer := b, engine := .passed } := by
  have hok := h.engine
  obtain ⟨hpair, hrel, -, htimer, hplace, hother⟩ := h.pair.leave hleave
  simp only [EngineOk, hc, hrel, reduceCtorEq, false_and, false_or, true_and] at hok
  refine ⟨hpair, by rw [htimer]; exact h.nonneg, by rw [htimer]; exact h.le, ?_, ?_⟩
  · simp only [EngineOk, htimer]
    exact ⟨hok.1, hok.2.1, hok.2.2.1, hplace, hok.2.2.2⟩
  · rw [htimer]
    exact h.ctl.congr rfl id hother rfl rfl

/-- The controller leaves the barrier. -/
theorem ctlLeave (h : Inv c) (hc : c.ctl = .inSync) {b : Barrier Actor} {r : Int}
    (hleave : c.timer.leave .controller = some (b, r)) :
    Inv { c with timer := b, ctl := if r < 0 then .left else .ticked } := by
  have hok := h.ctl
  obtain ⟨hpair, hrel, rfl, htimer, hplace, hother⟩ := h.pair.leave hleave
  simp only [CtlOk, hc, hrel, reduceCtorEq, false_and, false_or, true_and] at hok
  refine ⟨hpair, by rw [htimer]; exact h.nonneg, by rw [htimer]; exact h.le, ?_, ?_⟩
  · rw [htimer]
    exact h.engine.congr rfl rfl (by rw [htimer]) rfl hother rfl rfl
  · simp only [CtlOk, lt_self_iff_false, if_false]
    rw [htimer]
    exact ⟨hplace, hok⟩

/-- **Every step of the handshake keeps its invariant.** -/
theorem step (h : Inv c) (hs : c.Step c') : Inv c' := by
  have hengine := h.engine
  have hctl := h.ctl
  have hle := h.le
  cases hs with
  | stay => exact h
  | engineTime t hc => exact ⟨h.pair, h.nonneg, h.le, by simpa [EngineOk, hc] using hengine, h.ctl⟩
  | ctlTime t hc => exact ⟨h.pair, h.nonneg, h.le, h.engine, by simpa [CtlOk, hc] using hctl⟩
  | setNsync hc =>
      exact ⟨⟨rfl, h.pair.sync, h.pair.apart, h.pair.stopped⟩, h.nonneg, h.le,
        h.engine.congr rfl rfl rfl rfl rfl rfl rfl, h.ctl.congr rfl id rfl rfl rfl⟩
  | enginePass b r hc henter => exact h.engineEnter hc henter
  | engineArrive b hc henter => exact h.engineEnter hc henter
  | engineLeave b r hc hleave => exact h.engineLeave hc hleave
  | ctlPass b r hc henter => exact h.ctlEnter hc henter
  | ctlArrive b hc henter => exact h.ctlEnter hc henter
  | ctlLeave b r hc hleave => exact h.ctlLeave hc hleave
  | engineClock l hc hl =>
      refine ⟨h.pair, h.nonneg, h.le, ?_, h.ctl⟩
      simp only [EngineOk, hc] at hengine
      rcases hl with rfl | rfl <;> simpa [EngineOk] using hengine
  | wait hc hlt =>
      refine ⟨h.pair, h.nonneg, h.le, ?_, h.ctl⟩
      simp only [EngineOk, hc] at hengine
      obtain ⟨hstop, htimer, -, hplace, hpos, htime⟩ := hengine
      simp only [EngineOk]
      exact ⟨hstop, htimer, hplace, hpos, htime, Or.inl ⟨trivial, by omega⟩⟩
  | completed hc hge =>
      refine ⟨h.pair, h.nonneg, h.le, ?_, h.ctl⟩
      simp only [EngineOk, hc] at hengine
      obtain ⟨hstop, htimer, hwait, hplace, hpos, htime⟩ := hengine
      exact ⟨hstop, htimer, hwait, hplace, le_antisymm hle (htime ▸ hge)⟩
  | woken hc hwoken =>
      refine ⟨h.pair, h.nonneg, h.le, ?_, h.ctl⟩
      simp only [EngineOk, hc, hwoken, reduceCtorEq, false_and, false_or, true_and] at hengine
      obtain ⟨hstop, htimer, hplace, -, -, hlast⟩ := hengine
      exact ⟨hstop, htimer, rfl, hplace, hlast⟩
  | stopController hc =>
      refine ⟨h.pair, h.nonneg, h.le, ?_, h.ctl.congr rfl (fun _ => rfl) rfl rfl rfl⟩
      simp only [EngineOk, hc] at hengine
      exact ⟨rfl, hengine.2⟩
  | timeStop hc =>
      simp only [EngineOk, hc] at hengine
      obtain ⟨hstop, htimer, hwait, hplace, hpos, htime⟩ := hengine
      refine ⟨h.pair.timeStop, h.nonneg, h.le, ⟨hstop, rfl, hwait, ?_, htime⟩, ?_⟩
      · simp [Barrier.timeStop, hplace]
      · show CtlOk _ c.timer.timer.clock
        by_cases hb : c.timer.place .controller = .blocked
        · -- the broadcast of the stop releases the controller with its tick completed
          obtain ⟨hin, hlast⟩ := hctl.of_blocked hb
          simp only [CtlOk, hin]
          refine Or.inr ⟨?_, hpos, Or.inr ⟨hstop, hlast⟩⟩
          simp [Barrier.timeStop, hb, Place.wake]
        · refine hctl.congr rfl id ?_ rfl rfl
          cases hp : c.timer.place .controller <;> simp_all [Barrier.timeStop, Place.wake]
  | close hc =>
      refine ⟨h.pair, h.nonneg, h.le, ?_, h.ctl⟩
      simp only [EngineOk, hc] at hengine
      exact ⟨hengine.1, hengine.2.1, hengine.2.2.1, hengine.2.2.2.1⟩
  | finiStop hc =>
      refine ⟨h.pair, h.nonneg, h.le, ?_, h.ctl.congr rfl (fun _ => rfl) rfl rfl rfl⟩
      simp only [EngineOk, hc] at hengine ⊢
      exact ⟨trivial, hengine.2⟩
  | ctlClock hc =>
      refine ⟨h.pair, h.nonneg, h.le, h.engine, ?_⟩
      simp only [CtlOk, hc] at hctl
      exact ⟨hctl.1, hctl.2.1, rfl, hctl.2.2⟩
  | stops hc hstop =>
      refine ⟨h.pair, h.nonneg, h.le, h.engine, ?_⟩
      simp only [CtlOk, hc] at hctl
      exact ⟨hctl.1, hstop⟩
  | early hc hlt =>
      simp only [CtlOk, hc] at hctl
      omega
  | goOn hc hstop =>
      refine ⟨h.pair, h.nonneg, h.le, h.engine, ?_⟩
      simp only [CtlOk, hc, hstop, Bool.false_eq_true, false_and, or_false] at hctl
      exact hctl
  | signal hc =>
      simp only [CtlOk, hc] at hctl
      obtain ⟨hplace, hpos, htime, hlast⟩ := hctl
      refine ⟨h.pair, h.nonneg, htime.le, ?_, ⟨hplace, htime⟩⟩
      show EngineOk _ c.timer.timer.clock
      unfold EngineOk at hengine ⊢
      cases hs : c.engine <;> simp only [hs, Place.wake_eq_out] at hengine ⊢
      · exact ⟨hengine.1, hengine.2.1, hengine.2.2.1, hengine.2.2.2.1, htime⟩
      · exact ⟨hengine.1, hengine.2.1, hengine.2.2.1,
          hengine.2.2.2.imp_left fun hb => ⟨hb.1, htime⟩⟩
      · exact hengine
      · exact hengine
      · obtain ⟨hstop, htimer, hout, -, htime', hw⟩ := hengine
        refine ⟨hstop, htimer, hout, hpos, htime', Or.inr ⟨?_, htime⟩⟩
        rcases hw with ⟨hw, -⟩ | ⟨hw, -⟩ <;> simp [hw, Place.wake]
      all_goals exact hengine

/-- While the controller waits for the next tick, the engine waits for nothing. -/
theorem apart (h : Inv c) (hb : c.timer.place .controller = .blocked) :
    c.timer.place .engine ≠ .blocked ∧ c.waitCond ≠ .blocked := by
  refine ⟨h.pair.apart .controller hb, fun hw => ?_⟩
  have hlast := (h.ctl.of_blocked hb).2
  have hengine := h.engine
  unfold EngineOk at hengine
  cases hs : c.engine <;>
    simp only [hs, hw, reduceCtorEq, false_and, and_false, true_and, or_false] at hengine
  exact absurd hlast (ne_of_lt hengine.2.2.2.2.2)

/-- An engine that has not reached the barrier finds the controller ready for the next tick. -/
theorem behind (h : Inv c) (hb : c.engine = .behind) :
    c.lastCompletion = c.timer.timer.clock ∧
      (c.ctl = .ready ∨ c.ctl = .inSync ∧ c.timer.place .controller = .blocked) := by
  have hengine := h.engine
  have hctl := h.ctl
  simp only [EngineOk, hb] at hengine
  obtain ⟨hstop, -, -, -, hlast⟩ := hengine
  refine ⟨hlast, ?_⟩
  unfold CtlOk at hctl
  cases hs : c.ctl <;> simp only [hs, hstop, Bool.false_eq_true, false_and, or_false, and_false] at hctl
  · exact Or.inl rfl
  · rcases hctl with ⟨hp, -⟩ | ⟨-, -, hl⟩
    · exact Or.inr ⟨rfl, hp⟩
    · omega
  all_goals omega

/-- What the controller works on is the tick of the clock, which is not completed. -/
theorem busy (h : Inv c) (hb : c.ctl = .busy) :
    c.ctlTime = c.timer.timer.clock ∧ c.lastCompletion = c.timer.timer.clock - 1 := by
  have hctl := h.ctl
  simp only [CtlOk, hb] at hctl
  exact hctl.2.2

/-- Until the engine stops the controller, the completed tick is that of the clock or the one
before it. -/
theorem lag (h : Inv c) (hstop : c.stop = false) : c.timer.timer.clock ≤ c.lastCompletion + 1 := by
  have hctl := h.ctl
  unfold CtlOk at hctl
  cases hs : c.ctl <;> simp only [hs, hstop, Bool.false_eq_true, false_and, or_false, and_false] at hctl
  all_goals omega

end Inv

end Clockwork

end ComplexSim.Engine
