import ComplexSim.Engine.Basic

/-!
# Reconfiguring an engine (`src/cs_engine.c`)

The setters refuse a running engine: they look whether `running` is 1. But nothing sets it to 1, neither
`cs_sim_start` nor its main loop, so they never refuse, and the loop reads the pointers of the engine anew for
each call that it makes.

Here the thread of the engine executes `cs_sim_start`, one call after the other; what the calls return is left
open. Other threads call the setters: the test of `running` is one step, and each assignment is one of its own.
`calls` records the calls of the loop with the objects that they are made on; no step reads it. The clock that is
read for messages of the log is left out.
-/

namespace ComplexSim.Reconfigure

open Engine

/-- An address; `none` is NULL. -/
abbrev Addr := Nat

/-- `cs_engine_t`, as far as `cs_sim_start` and the setters are concerned. -/
structure CsEngine where
  timer : Option Addr
  evm : Option Addr
  netRt : Option Addr
  termFunc : Option Addr
  termFuncArgs : Option Addr
  st : SimType
  running : Int
  /-- `nact` and `total_tasks` of `alist` -/
  nact : Nat
  totalTasks : Nat

/-- `cs_init_engine`, for an engine in any memory. -/
def csInitEngine (e : CsEngine) : CsEngine :=
  { e with netRt := none, evm := none, st := .activityScan, running := 0, nact := 0, totalTasks := 0 }

/-- What the setters set. -/
structure Config where
  timer : Option Addr
  evm : Option Addr
  netRt : Option Addr
  termFunc : Option Addr
  termFuncArgs : Option Addr

def CsEngine.config (e : CsEngine) : Config where
  timer := e.timer
  evm := e.evm
  netRt := e.netRt
  termFunc := e.termFunc
  termFuncArgs := e.termFuncArgs

/-- An assignment to a field of the engine. -/
inductive Write where
  | timer (p : Option Addr)
  | evm (p : Option Addr)
  | netRt (p : Option Addr)
  | termFunc (p : Option Addr)
  | termFuncArgs (p : Option Addr)
  deriving DecidableEq

def Write.apply (e : CsEngine) : Write → CsEngine
  | .timer p => { e with timer := p }
  | .evm p => { e with evm := p }
  | .netRt p => { e with netRt := p }
  | .termFunc p => { e with termFunc := p }
  | .termFuncArgs p => { e with termFuncArgs := p }

/-- The engine has the value already. -/
def Write.Same (e : CsEngine) : Write → Prop
  | .timer p => e.timer = p
  | .evm p => e.evm = p
  | .netRt p => e.netRt = p
  | .termFunc p => e.termFunc = p
  | .termFuncArgs p => e.termFuncArgs = p

/-- `_check_already_running`. -/
def checkAlreadyRunning (e : CsEngine) : Bool := decide (e.running = 1)

/-- The assignments of a setter after its test, where `asserted` is what it asserts; `none` if the assertion
fails. -/
def set (e : CsEngine) (asserted : Bool) (writes : List Write) : Option (List Write) :=
  if checkAlreadyRunning e then some [] else if asserted then some writes else none

/-- `cs_set_timer`. -/
def csSetTimer (e : CsEngine) (timer : Option Addr) : Option (List Write) := set e true [.timer timer]

/-- `cs_set_termination_function`. -/
def csSetTerminationFunction (e : CsEngine) (func args : Option Addr) : Option (List Write) :=
  set e true [.termFunc func, .termFuncArgs args]

/-- `cs_set_event_manager`. -/
def csSetEventManager (e : CsEngine) (evm : Option Addr) : Option (List Write) := set e evm.isSome [.evm evm]

/-- `cs_set_network_runtime`. -/
def csSetNetworkRuntime (e : CsEngine) (netRt : Option Addr) : Option (List Write) := set e netRt.isSome [.netRt netRt]

/-- A call of a setter. -/
inductive Setter where
  | timer (p : Option Addr)
  | terminationFunction (func args : Option Addr)
  | eventManager (p : Option Addr)
  | networkRuntime (p : Option Addr)

def Setter.call (e : CsEngine) : Setter → Option (List Write)
  | .timer p => csSetTimer e p
  | .terminationFunction func args => csSetTerminationFunction e func args
  | .eventManager p => csSetEventManager e p
  | .networkRuntime p => csSetNetworkRuntime e p

/-- What a setter writes where it is not refused. -/
def Setter.writes : Setter → List Write
  | .timer p => [.timer p]
  | .terminationFunction func args => [.termFunc func, .termFuncArgs args]
  | .eventManager p => [.evm p]
  | .networkRuntime p => [.netRt p]

/-- A call that the thread of the engine makes. -/
inductive Call where
  | setNsync (timer : Addr)
  | getClock (timer : Addr)
  | timeSync (timer : Addr)
  | timeStop (timer : Addr)
  | evmRunning (evm : Addr)
  | startController (evm : Addr)
  | moreEvents (evm : Addr)
  | stopController (evm : Addr)
  | waitEventCompletion (evm : Addr)
  | termFunc (func : Addr) (args : Option Addr)

/-- The call is made on the objects of this configuration. -/
def Call.On (c : Config) : Call → Prop
  | .setNsync timer | .getClock timer | .timeSync timer | .timeStop timer => c.timer = some timer
  | .evmRunning evm | .startController evm | .moreEvents evm | .stopController evm | .waitEventCompletion evm =>
      c.evm = some evm
  | .termFunc func args => c.termFunc = some func ∧ c.termFuncArgs = args

/-- Where the thread of the engine is. -/
inductive MainPc where
  /-- before `cs_sim_start` -/
  | main
  /-- in `cs_sim_start`, before its main loop -/
  | simStart
  /-- `events = (engine->evm != NULL)` -/
  | begin
  | firstClock
  | evmRunning
  | startController
  /-- `cs_wp_start(engine->wp)` -/
  | wpStart
  /-- `_loop_activity` -/
  | loop (atype : ActivityType)
  /-- `_check_termination` -/
  | term
  | moreEvents
  | sync
  | clock
  /-- `_cs_stop_actors` -/
  | stopController
  | timeStop
  /-- the closing assertion -/
  | closing
  | completion
  /-- `cs_sim_start` has returned -/
  | returned
  deriving DecidableEq

/-- The thread is in the main loop. -/
def MainPc.inLoop : MainPc → Bool
  | .main | .simStart | .returned => false
  | _ => true

/-- The main loop has been entered. -/
def MainPc.entered : MainPc → Bool
  | .main | .simStart => false
  | _ => true

/-- An engine, the thread that executes `cs_sim_start`, and threads that call setters. -/
structure State (T : Type*) where
  engine : CsEngine
  pc : MainPc
  events : Bool
  stop : Bool
  calls : List Call
  /-- the assignments that a thread has still to make -/
  pending : T → List Write
  /-- a null pointer was followed, an assertion failed, or `exit` was called -/
  ended : Bool

variable {T : Type*}

/-- A call on the object that a pointer leads to. -/
def State.through (s : State T) (p : Option Addr) (call : Addr → Call) (next : MainPc) : State T :=
  match p with
  | none => { s with ended := true }
  | some a => { s with calls := s.calls ++ [call a], pc := next }

/-- The next step of the engine; `r` is what the call that it makes returns. -/
def engineStep (s : State T) (r : Int) : Option (State T) :=
  match s.pc with
  | .main | .returned => none
  | .simStart =>
      if s.engine.nact = 0 ∧ s.engine.netRt = none ∧ s.engine.evm = none then some { s with ended := true }
      else some (s.through s.engine.timer .setNsync .begin)
  | .begin => some { s with events := s.engine.evm.isSome, stop := false, pc := .firstClock }
  | .firstClock => some (s.through s.engine.timer .getClock .evmRunning)
  | .evmRunning =>
      if s.events then
        some (s.through s.engine.evm .evmRunning (if r = 0 then .startController else .wpStart))
      else some { s with pc := .wpStart }
  | .startController => some (s.through s.engine.evm .startController .wpStart)
  | .wpStart => some { s with pc := .loop .afterStep }
  | .loop .afterStep => some (s.through s.engine.timer .getClock .term)
  | .loop .user => some (s.through s.engine.timer .getClock .completion)
  | .term =>
      match s.engine.st with
      | .activityScan =>
          let stop := s.stop || decide (r ≠ 0)
          some (({ s with stop := stop } : State T).through s.engine.termFunc
            (fun func => .termFunc func s.engine.termFuncArgs) (if r = 0 then .moreEvents else .sync))
      | .eventDriven => some { s with pc := .moreEvents }
  | .moreEvents =>
      if s.events then
        let stop := s.stop || (decide (r = 0) && decide (s.engine.st = .eventDriven))
        some (({ s with stop := stop } : State T).through s.engine.evm .moreEvents .sync)
      else some { s with pc := .sync }
  | .sync => some (s.through s.engine.timer .timeSync .clock)
  | .clock =>
      some (s.through s.engine.timer .getClock (if s.stop then .stopController else
        match s.engine.st with
        | .activityScan => .loop .user
        | .eventDriven => .completion))
  | .stopController =>
      match s.engine.evm with
      | some evm => some (s.through (some evm) .stopController .timeStop)
      | none => some { s with pc := .timeStop }
  | .timeStop => some (s.through s.engine.timer .timeStop .closing)
  | .closing => some (s.through s.engine.timer .getClock .returned)
  | .completion =>
      if s.events then some (s.through s.engine.evm .waitEventCompletion (.loop .afterStep))
      else some { s with pc := .loop .afterStep }

inductive Label (T : Type*) where
  /-- the program calls `cs_sim_start` -/
  | simStart
  | engine (r : Int)
  /-- a thread calls a setter, up to the test and the assertion -/
  | call (t : T) (setter : Setter)
  /-- the next assignment of the thread -/
  | write (t : T)
  /-- `cs_set_sim_type` -/
  | setSimType (st : SimType)
  /-- `cs_bind_sim_activity` -/
  | bind (tasks : Nat)

variable [DecidableEq T]

def step (s : State T) : Label T → Option (State T)
  | .simStart => if s.ended = false ∧ s.pc = .main then some { s with pc := .simStart } else none
  | .engine r => if s.ended then none else engineStep s r
  | .call t setter => match s.ended, s.pending t with
      | false, [] => match setter.call s.engine with
          | some writes => some { s with pending := Function.update s.pending t writes }
          | none => some { s with ended := true }
      | _, _ => none
  | .write t => match s.ended, s.pending t with
      | false, w :: writes => some { s with engine := w.apply s.engine, pending := Function.update s.pending t writes }
      | _, _ => none
  | .setSimType st => if s.ended then none else some { s with engine := { s.engine with st := st } }
  | .bind tasks =>
      if s.ended then none
      else some { s with engine := { s.engine with nact := s.engine.nact + 1, totalTasks := s.engine.totalTasks + tasks } }

/-- An engine that has been initialised, and threads that have not called it. -/
structure Start (s : State T) : Prop where
  engine : ∃ e, s.engine = csInitEngine e
  pc : s.pc = .main
  pending : ∀ t, s.pending t = []
  running : s.ended = false

def system (T : Type*) [DecidableEq T] : Lts.System (State T) (Label T) := .ofFn Start step

/-- An assignment that is made in the main loop assigns what the engine has. -/
def Unaltering (s : State T) : Label T → Prop
  | .write t => s.pc.inLoop = true → ∀ w ∈ (s.pending t).head?, w.Same s.engine
  | _ => True

instance (e : CsEngine) (w : Write) : Decidable (w.Same e) :=
  match w with
  | .timer p => inferInstanceAs (Decidable (e.timer = p))
  | .evm p => inferInstanceAs (Decidable (e.evm = p))
  | .netRt p => inferInstanceAs (Decidable (e.netRt = p))
  | .termFunc p => inferInstanceAs (Decidable (e.termFunc = p))
  | .termFuncArgs p => inferInstanceAs (Decidable (e.termFuncArgs = p))

instance (s : State T) (l : Label T) : Decidable (Unaltering s l) :=
  match l with
  | .write t => inferInstanceAs (Decidable (s.pc.inLoop = true → ∀ w ∈ (s.pending t).head?, w.Same s.engine))
  | .simStart | .engine _ | .call _ _ | .setSimType _ | .bind _ => .isTrue trivial

section Writes

omit [DecidableEq T]

variable {e : CsEngine} {w : Write}

theorem config_apply_iff : (w.apply e).config = e.config ↔ w.Same e := by
  cases w <;> simp [Write.apply, Write.Same, CsEngine.config, eq_comm]

theorem config_apply_running : (w.apply e).running = e.running := by cases w <;> rfl

/-- Where `running` is not 1, a setter does what it is called for. -/
theorem call_of_not_running (h : e.running ≠ 1) (setter : Setter) :
    setter.call e = some setter.writes ∨ setter.call e = none := by
  have htest : checkAlreadyRunning e = false := decide_eq_false h
  have hset : ∀ asserted writes, set e asserted writes = if asserted then some writes else none := fun asserted writes => by
    rw [set, htest]
    rfl
  cases setter with
  | timer p => exact Or.inl (hset true _)
  | terminationFunction func args => exact Or.inl (hset true _)
  | eventManager p =>
      cases p with
      | some evm => exact Or.inl (hset true _)
      | none => exact Or.inr (hset false _)
  | networkRuntime p =>
      cases p with
      | some netRt => exact Or.inl (hset true _)
      | none => exact Or.inr (hset false _)

/-- What a step of the engine calls, it calls on the objects of the configuration; it changes no pointer. -/
structure Follows (s s' : State T) : Prop where
  engine : s'.engine = s.engine
  calls : ∃ new, s'.calls = s.calls ++ new ∧ ∀ c ∈ new, c.On s.engine.config
  entered : s.pc.entered = true → s'.pc.entered = true

variable {s s' u : State T} {r : Int}

theorem Follows.same (hengine : s'.engine = s.engine) (hcalls : s'.calls = s.calls)
    (hentered : s.pc.entered = true → s'.pc.entered = true) : Follows s s' :=
  ⟨hengine, ⟨[], by simp [hcalls], by simp⟩, hentered⟩

theorem Follows.through {p : Option Addr} {call : Addr → Call} {next : MainPc} (hengine : u.engine = s.engine)
    (hcalls : u.calls = s.calls) (hpc : u.pc = s.pc) (hnext : next.entered = true)
    (hon : ∀ a, p = some a → (call a).On s.engine.config) : Follows s (u.through p call next) := by
  cases p with
  | none =>
      refine .same hengine hcalls fun hentered => ?_
      show u.pc.entered = true
      rw [hpc]
      exact hentered
  | some a =>
      refine ⟨hengine, ⟨[call a], ?_, ?_⟩, fun _ => hnext⟩
      · show u.calls ++ [call a] = _
        rw [hcalls]
      · simpa using hon a rfl

theorem engineStep_follows (h : engineStep s r = some s') : Follows s s' := by
  unfold engineStep at h
  cases hpc : s.pc with
  | main | returned => simp [hpc] at h
  | simStart =>
      simp only [hpc] at h
      have hbefore : s.pc.entered ≠ true := by
        rw [hpc]
        decide
      split at h <;> cases h
      · exact .same rfl rfl fun hentered => absurd hentered hbefore
      · exact .through rfl rfl rfl rfl fun _ ha => ha
  | «begin» | wpStart =>
      simp only [hpc] at h
      cases h
      exact .same rfl rfl fun _ => rfl
  | firstClock | startController | sync | timeStop | closing =>
      simp only [hpc] at h
      cases h
      exact .through rfl rfl rfl rfl fun _ ha => ha
  | clock =>
      simp only [hpc] at h
      cases h
      refine .through rfl rfl rfl ?_ fun _ ha => ha
      cases s.stop
      · cases s.engine.st <;> rfl
      · rfl
  | evmRunning =>
      simp only [hpc] at h
      split at h <;> cases h
      · exact .through rfl rfl rfl (by split <;> rfl) fun _ ha => ha
      · exact .same rfl rfl fun _ => rfl
  | moreEvents =>
      simp only [hpc] at h
      split at h <;> cases h
      · exact .through rfl rfl hpc.symm rfl fun _ ha => ha
      · exact .same rfl rfl fun _ => rfl
  | completion =>
      simp only [hpc] at h
      split at h <;> cases h
      · exact .through rfl rfl rfl rfl fun _ ha => ha
      · exact .same rfl rfl fun _ => rfl
  | loop atype =>
      cases atype <;>
        · simp only [hpc] at h
          cases h
          exact .through rfl rfl rfl rfl fun _ ha => ha
  | term =>
      simp only [hpc] at h
      split at h <;> cases h
      · exact .through rfl rfl hpc.symm (by split <;> rfl) fun _ ha => ⟨ha, rfl⟩
      · exact .same rfl rfl fun _ => rfl
  | stopController =>
      simp only [hpc] at h
      cases hevm : s.engine.evm <;> simp only [hevm] at h <;> cases h
      · exact .same rfl rfl fun _ => rfl
      · exact .through rfl rfl rfl rfl fun _ ha => hevm.trans ha

/-- The engine makes a step in the loop, once it has entered it. -/
theorem engineStep_inLoop (h : engineStep s r = some s') (hentered : s.pc.entered = true) : s.pc.inLoop = true := by
  cases hpc : s.pc with
  | main | simStart =>
      rw [hpc] at hentered
      cases hentered
  | returned => simp [engineStep, hpc] at h
  | _ => rfl

end Writes

section Runs

variable {s s' : State T} {l : Label T}

/-- **One step**: an assignment, or one that leaves the configuration alone. -/
theorem step_cases (h : step s l = some s') :
    (Follows s s' ∧ (∀ t, l ≠ .write t) ∧ (s.pc.entered = true → s'.pc.inLoop = true → s.pc.inLoop = true)) ∨
    (s'.engine.config = s.engine.config ∧ s'.calls = s.calls ∧ s'.pc = s.pc ∧ ∀ t, l ≠ .write t) ∨
    ∃ t w writes, l = .write t ∧ s.pending t = w :: writes ∧ s'.engine = w.apply s.engine ∧ s'.calls = s.calls ∧
      s'.pc = s.pc := by
  cases l with
  | simStart =>
      simp only [step] at h
      split at h
      · rename_i hmain
        cases h
        have hbefore : s.pc.entered ≠ true := by
          rw [hmain.2]
          decide
        exact Or.inl ⟨.same rfl rfl fun hentered => absurd hentered hbefore, by simp,
          fun hentered => absurd hentered hbefore⟩
      · cases h
  | engine r =>
      simp only [step] at h
      split at h
      · cases h
      · exact Or.inl ⟨engineStep_follows h, by simp, fun hentered _ => engineStep_inLoop h hentered⟩
  | call t setter =>
      simp only [step] at h
      split at h
      · split at h <;> cases h <;> exact Or.inr (Or.inl ⟨rfl, rfl, rfl, by simp⟩)
      · cases h
  | write t =>
      simp only [step] at h
      split at h
      · rename_i w writes _ hpending
        cases h
        exact Or.inr (Or.inr ⟨t, w, writes, rfl, hpending, rfl, rfl, rfl⟩)
      · cases h
  | setSimType st | bind tasks =>
      simp only [step] at h
      split at h <;> cases h
      exact Or.inr (Or.inl ⟨rfl, rfl, rfl, by simp⟩)

/-- A step in the loop keeps the configuration if and only if it is unaltering. -/
theorem step_config_iff (h : step s l = some s') (hloop : s.pc.inLoop = true) :
    s'.engine.config = s.engine.config ↔ Unaltering s l := by
  have hother : (∀ t, l ≠ .write t) → Unaltering s l := fun hl => by
    cases l with
    | write t => exact absurd rfl (hl t)
    | _ => trivial
  rcases step_cases h with ⟨hfollows, hl, -⟩ | ⟨hconfig, -, -, hl⟩ | ⟨t, w, writes, rfl, hpending, hengine, -, -⟩
  · exact iff_of_true (by rw [hfollows.engine]) (hother hl)
  · exact iff_of_true hconfig (hother hl)
  · rw [hengine, config_apply_iff]
    simp [Unaltering, hloop, hpending]

/-- The loop runs with the configuration `c`. -/
structure Configured (c : Config) (calls : List Call) (s : State T) : Prop where
  entered : s.pc.entered = true
  config : s.pc.inLoop = true → s.engine.config = c
  calls : s.pc.inLoop = true → ∃ new, s.calls = calls ++ new ∧ ∀ a ∈ new, a.On c

theorem Configured.step {c : Config} {calls : List Call} (hi : Configured c calls s) (hok : Unaltering s l)
    (h : step s l = some s') : Configured c calls s' := by
  rcases step_cases h with ⟨hfollows, -, hback⟩ | ⟨hconfig, hcalls, hpc, -⟩ | ⟨t, w, writes, rfl, hpending, hengine, hcalls, hpc⟩
  · obtain ⟨new, hnew, hon⟩ := hfollows.calls
    refine ⟨hfollows.entered hi.entered, fun hloop => ?_, fun hloop => ?_⟩
    · rw [hfollows.engine]
      exact hi.config (hback hi.entered hloop)
    · obtain ⟨old, hold, honold⟩ := hi.calls (hback hi.entered hloop)
      rw [hi.config (hback hi.entered hloop)] at hon
      refine ⟨old ++ new, by rw [hnew, hold, List.append_assoc], ?_⟩
      rw [List.forall_mem_append]
      exact ⟨honold, hon⟩
  · refine ⟨hpc ▸ hi.entered, fun hloop => ?_, fun hloop => ?_⟩
    · exact hconfig.trans (hi.config (hpc ▸ hloop))
    · rw [hcalls]
      exact hi.calls (hpc ▸ hloop)
  · refine ⟨hpc ▸ hi.entered, fun hloop => ?_, fun hloop => ?_⟩
    · rw [(step_config_iff h (hpc ▸ hloop)).2 hok]
      exact hi.config (hpc ▸ hloop)
    · rw [hcalls]
      exact hi.calls (hpc ▸ hloop)

/-- Nothing sets `running`. -/
theorem running_step (h : step s l = some s') : s'.engine.running = s.engine.running := by
  cases l with
  | engine r =>
      simp only [step] at h
      split at h
      · cases h
      · rw [(engineStep_follows h).engine]
  | write t =>
      simp only [step] at h
      split at h <;> cases h
      exact config_apply_running
  | call t setter =>
      simp only [step] at h
      split at h
      · split at h <;> cases h <;> rfl
      · cases h
  | simStart | setSimType st | bind tasks =>
      simp only [step] at h
      split at h <;> cases h
      rfl

theorem running_reachable (h : Lts.Reachable (system T) s) : s.engine.running = 0 := by
  refine h.invariant (I := fun s => s.engine.running = 0) (fun s hs => ?_) fun s l s' hi _ hs =>
    (running_step hs).trans hi
  obtain ⟨e, he⟩ := hs.engine
  rw [he]
  rfl

end Runs

/-- **An engine keeps its configuration** from the beginning of the main loop on exactly as long as every setter
assigns what the engine has: no call is refused, in a run of such assignments the loop makes its calls on the
objects that it began with, and in any run the configuration changes with the first other assignment. -/
theorem configuration_kept (s₀ s : State T) (h₀ : Lts.Reachable (system T) s₀) (hbegin : s₀.pc = .begin) :
    (Lts.Run (system T) Unaltering s₀ s → s.pc.inLoop = true → s.engine.config = s₀.engine.config ∧
      ∃ new, s.calls = s₀.calls ++ new ∧ ∀ a ∈ new, a.On s₀.engine.config) ∧
    (Lts.Run (system T) (fun _ _ => True) s₀ s → s.pc.inLoop = true →
      (∀ setter : Setter, setter.call s.engine = some setter.writes ∨ setter.call s.engine = none) ∧
      ∀ l s', step s l = some s' → (s'.engine.config = s.engine.config ↔ Unaltering s l)) := by
  constructor
  · intro hrun hloop
    have hstart : Configured s₀.engine.config s₀.calls s₀ :=
      ⟨by rw [hbegin]; rfl, fun _ => rfl, fun _ => ⟨[], by simp, by simp⟩⟩
    have hend : Configured s₀.engine.config s₀.calls s :=
      hrun.invariant (fun _ _ _ hi hok hs => hi.step hok hs) hstart
    exact ⟨hend.config hloop, hend.calls hloop⟩
  · intro hrun hloop
    refine ⟨fun setter => call_of_not_running ?_ setter, fun l s' hs => step_config_iff hs hloop⟩
    rw [running_reachable (h₀.run hrun)]
    decide

/-- An initialised engine, and one other thread. -/
def start : State Unit where
  engine := csInitEngine ⟨none, none, none, none, none, .activityScan, 0, 0, 0⟩
  pc := .main
  events := false
  stop := false
  calls := []
  pending := fun _ => []
  ended := false

theorem start_start : Start start := ⟨⟨_, rfl⟩, rfl, fun _ => rfl, rfl⟩

/-- The program sets the timer 1 and the event manager 2, and the main loop begins. -/
def beginsLoop : List (Label Unit) :=
  [.call () (.timer (some 1)), .write (), .call () (.eventManager (some 2)), .write (), .setSimType .eventDriven,
    .simStart, .engine 0]

/-- The timer is set again in the loop, to the one that is there. -/
theorem configuration_kept_timer : ∃ s₀ s : State Unit, Lts.Reachable (system Unit) s₀ ∧ s₀.pc = .begin ∧
    s₀.engine.timer = some 1 ∧ s.pc = .sync ∧ s.engine.config = s₀.engine.config := by
  obtain ⟨s₀, s, hs₀, hp₀, hs, hp⟩ := Lts.exec_of_any_then (f := step) (g := Lts.guarded Unaltering step) (s := start)
    (l := beginsLoop) (m := [.engine 0, .call () (.timer (some 1)), .engine 0, .write (), .engine 1, .engine 0, .engine 0,
      .engine 0, .engine 1])
    (p := fun s => decide (s.pc = .begin ∧ s.engine.timer = some 1)) (q := fun s => decide (s.pc = .sync))
    (by decide +kernel)
  obtain ⟨hbegin, htimer⟩ := of_decide_eq_true hp₀
  have hreach : Lts.Reachable (system Unit) s₀ := Lts.exec_reachable start_start hs₀
  have hsync : s.pc = .sync := of_decide_eq_true hp
  have hrun : Lts.Run (system Unit) Unaltering s₀ s := Lts.exec_guarded_run hs
  exact ⟨s₀, s, hreach, hbegin, htimer, hsync,
    ((configuration_kept s₀ s hreach hbegin).1 hrun (by rw [hsync]; rfl)).1⟩

/-- The timer is replaced between two calls of the loop: it reads the clock of one and synchronises on the other. -/
theorem configuration_lost : ∃ s₀ s : State Unit, Lts.Reachable (system Unit) s₀ ∧ s₀.pc = .begin ∧
    Lts.Run (system Unit) (fun _ _ => True) s₀ s ∧ s.pc.inLoop = true ∧ s₀.engine.timer = some 1 ∧
      s.engine.timer = some 3 := by
  obtain ⟨s₀, s, hs₀, hp₀, hs, hp⟩ := Lts.exec_of_any_then (f := step) (g := step) (s := start) (l := beginsLoop)
    (m := [.engine 0, .engine 0, .call () (.timer (some 3)), .write ()])
    (p := fun s => decide (s.pc = .begin ∧ s.engine.timer = some 1))
    (q := fun s => decide (s.pc.inLoop = true ∧ s.engine.timer = some 3)) (by decide +kernel)
  obtain ⟨hbegin, htimer⟩ := of_decide_eq_true hp₀
  obtain ⟨hloop, hother⟩ := of_decide_eq_true hp
  exact ⟨s₀, s, Lts.exec_reachable start_start hs₀, hbegin, Lts.exec_run hs, hloop, htimer, hother⟩

end ComplexSim.Reconfigure
