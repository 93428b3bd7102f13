import ComplexSim.Workerpool.Lifecycle

/-!
# One controller, one thread for each worker

The mutex is held by one call at a time, so the invariant speaks of the place of that call (`phase`):
`Table` is about the threads and their handles, and `Order` says which threads there are when the call
that holds the mutex is at a given place. A controller that has joined a worker leaves no thread alive
on its record (`Table.passed`); so once the controller has ended none is alive at all.
-/

namespace ComplexSim.Lifecycle

open Workerpool

variable {T : Type*} {n : Nat} {α : Type}

/-- The workers that a controller has joined. -/
def passed {n : Nat} : ControllerPc n → Nat → Prop
  | .join count, w => w < count
  | .ended, _ => True
  | _, _ => False

/-- The threads of a pool and their handles. -/
structure Table (s : State T n α) : Prop where
  fresh : ∀ i, s.created ≤ i → s.threads i = none
  joined : ∀ i d, s.threads i = some d → d.joined = true → d.role.ended = true
  handle : ∀ w i, s.thId w = some i → ∃ d pc, s.threads i = some d ∧ d.role = .worker w pc
  slot : ∀ w i, AliveOn s w i → s.thId w = some i
  passed : ∀ i d pc, s.threads i = some d → d.role = .controller pc → d.joined = false →
    ∀ w : Fin n, passed pc w → ∀ j, ¬ AliveOn s w j

section Table

variable {s s' : State T n α} {i j : Nat} {d : Thread n} {r : Role n} {w : Fin n}

theorem move_threads (hi : s.threads i = some d) {e : Thread n} (he : (s.move i r).threads j = some e) :
    (j = i ∧ e = { d with role := r }) ∨ (j ≠ i ∧ s.threads j = some e) := by
  simp only [State.move, hi, Option.map_some] at he
  by_cases hj : j = i
  · subst hj
    rw [Function.update_self] at he
    exact Or.inl ⟨rfl, (Option.some.inj he).symm⟩
  · rw [Function.update_of_ne hj] at he
    exact Or.inr ⟨hj, he⟩

theorem move_self (hi : s.threads i = some d) : (s.move i r).threads i = some { d with role := r } := by
  simp [State.move, hi]

theorem move_of_ne (hj : j ≠ i) : (s.move i r).threads j = s.threads j := Function.update_of_ne hj _ _

/-- A thread that moves was alive. -/
theorem alive_move (hi : s.threads i = some d)
    (hr : ∀ w pc, r = .worker w pc → ∃ pc', d.role = .worker w pc' ∧ pc' ≠ .exited)
    (h : AliveOn (s.move i r) w j) : AliveOn s w j := by
  obtain ⟨e, pc, he, hrole, halive⟩ := h
  rcases move_threads hi he with ⟨rfl, rfl⟩ | ⟨-, he⟩
  · obtain ⟨pc', hd, hpc'⟩ := hr w pc hrole
    exact ⟨d, pc', hi, hd, hpc'⟩
  · exact ⟨e, pc, he, hrole, halive⟩

theorem unjoined_move (hi : s.threads i = some d)
    (hr : (∃ pc, r = .controller pc) ↔ ∃ pc, d.role = .controller pc) :
    Unjoined (s.move i r) j ↔ Unjoined s j := by
  constructor
  · rintro ⟨e, pc, he, hrole, hjoined⟩
    rcases move_threads hi he with ⟨rfl, rfl⟩ | ⟨-, he⟩
    · obtain ⟨pc', hd⟩ := hr.1 ⟨pc, hrole⟩
      exact ⟨d, pc', hi, hd, hjoined⟩
    · exact ⟨e, pc, he, hrole, hjoined⟩
  · rintro ⟨e, pc, he, hrole, hjoined⟩
    by_cases hj : j = i
    · subst hj
      rw [hi] at he
      cases he
      obtain ⟨pc', hpc'⟩ := hr.2 ⟨pc, hrole⟩
      exact ⟨_, pc', move_self hi, hpc', hjoined⟩
    · exact ⟨e, pc, (move_of_ne hj).trans he, hrole, hjoined⟩

theorem Table.congr (h : Table s) (hthreads : s'.threads = s.threads) (hcreated : s'.created = s.created)
    (hth : s'.thId = s.thId) : Table s' := by
  have halive : ∀ w i, AliveOn s' w i → AliveOn s w i := by
    intro w i hw
    simpa only [AliveOn, hthreads] using hw
  refine ⟨?_, ?_, ?_, fun w i hw => ?_, ?_⟩
  · rw [hthreads, hcreated]
    exact h.fresh
  · rw [hthreads]
    exact h.joined
  · rw [hthreads, hth]
    exact h.handle
  · rw [hth]
    exact h.slot w i (halive w i hw)
  · rw [hthreads]
    exact fun i d pc hi hrole hjoined w hw j hj => h.passed i d pc hi hrole hjoined w hw j (halive w j hj)

/-- A thread that is not joined moves on in what it runs. -/
theorem Table.move (h : Table s) (hi : s.threads i = some d) (hlive : d.role.ended = false)
    (hworker : ∀ w pc, d.role = .worker w pc → ∃ pc', r = .worker w pc')
    (hback : ∀ w pc, r = .worker w pc → ∃ pc', d.role = .worker w pc' ∧ pc' ≠ .exited)
    (hpass : ∀ pc, r = .controller pc → ∀ w : Fin n, Lifecycle.passed pc w → ∀ j, ¬ AliveOn s w j) :
    Table (s.move i r) := by
  refine ⟨fun j hj => ?_, fun j e he hjoined => ?_, fun w j hw => ?_, fun w j hj => ?_, ?_⟩
  · have hne : j ≠ i := by
      rintro rfl
      rw [h.fresh j hj] at hi
      cases hi
    exact (move_of_ne hne).trans (h.fresh j hj)
  · rcases move_threads hi he with ⟨rfl, rfl⟩ | ⟨-, he⟩
    · have hended := h.joined j d hi hjoined
      rw [hlive] at hended
      cases hended
    · exact h.joined j e he hjoined
  · obtain ⟨e, pc, he, hrole⟩ := h.handle w j hw
    by_cases hj : j = i
    · subst hj
      rw [hi] at he
      cases he
      obtain ⟨pc', hpc'⟩ := hworker w pc hrole
      exact ⟨_, pc', move_self hi, hpc'⟩
    · exact ⟨e, pc, (move_of_ne hj).trans he, hrole⟩
  · exact h.slot w j (alive_move hi hback hj)
  · intro j e pc he hrole hjoined w hw k hk
    have hk' := alive_move hi hback hk
    rcases move_threads hi he with ⟨rfl, rfl⟩ | ⟨-, he⟩
    · exact hpass pc hrole w hw k hk'
    · exact h.passed j e pc he hrole hjoined w hw k hk'

/-- The state in which the thread `j` is joined. -/
def join (s : State T n α) (j : Nat) (e : Thread n) : State T n α :=
  { s with threads := Function.update s.threads j (some { e with joined := true }) }

theorem join_threads {e f : Thread n} (hf : (join s j e).threads i = some f) :
    (i = j ∧ f = { e with joined := true }) ∨ (i ≠ j ∧ s.threads i = some f) := by
  simp only [join] at hf
  by_cases hi : i = j
  · subst hi
    rw [Function.update_self] at hf
    exact Or.inl ⟨rfl, (Option.some.inj hf).symm⟩
  · rw [Function.update_of_ne hi] at hf
    exact Or.inr ⟨hi, hf⟩

theorem join_self {e : Thread n} : (join s j e).threads j = some { e with joined := true } := by simp [join]

theorem join_of_ne {e : Thread n} (hi : i ≠ j) : (join s j e).threads i = s.threads i := Function.update_of_ne hi _ _

theorem alive_join {e : Thread n} (hj : s.threads j = some e) (h : AliveOn (join s j e) w i) : AliveOn s w i := by
  obtain ⟨f, pc, hf, hrole, halive⟩ := h
  rcases join_threads hf with ⟨rfl, rfl⟩ | ⟨-, hf⟩
  · exact ⟨e, pc, hj, hrole, halive⟩
  · exact ⟨f, pc, hf, hrole, halive⟩

theorem unjoined_join {e : Thread n} : Unjoined (join s j e) i ↔ i ≠ j ∧ Unjoined s i := by
  constructor
  · rintro ⟨f, pc, hf, hrole, hjoined⟩
    rcases join_threads hf with ⟨rfl, rfl⟩ | ⟨hne, hf⟩
    · cases hjoined
    · exact ⟨hne, f, pc, hf, hrole, hjoined⟩
  · rintro ⟨hne, f, pc, hf, hrole, hjoined⟩
    exact ⟨f, pc, (join_of_ne hne).trans hf, hrole, hjoined⟩

theorem Table.joinThread (h : Table s) {e : Thread n} (hj : s.threads j = some e) (hended : e.role.ended = true) :
    Table (join s j e) := by
  refine ⟨fun i hi => ?_, fun i f hf hjoined => ?_, fun w i hw => ?_, fun w i hi => h.slot w i (alive_join hj hi), ?_⟩
  · have hne : i ≠ j := by
      rintro rfl
      rw [h.fresh i hi] at hj
      cases hj
    exact (join_of_ne hne).trans (h.fresh i hi)
  · rcases join_threads hf with ⟨rfl, rfl⟩ | ⟨-, hf⟩
    · exact hended
    · exact h.joined i f hf hjoined
  · obtain ⟨f, pc, hf, hrole⟩ := h.handle w i hw
    by_cases hi : i = j
    · subst hi
      rw [hj] at hf
      cases hf
      exact ⟨_, pc, join_self, hrole⟩
    · exact ⟨f, pc, (join_of_ne hi).trans hf, hrole⟩
  · intro i f pc hf hrole hjoined w hw k hk
    rcases join_threads hf with ⟨rfl, rfl⟩ | ⟨-, hf⟩
    · cases hjoined
    · exact h.passed i f pc hf hrole hjoined w hw k (alive_join hj hk)

theorem Table.not_joined (h : Table s) (hi : s.threads i = some d) (hlive : d.role.ended = false) : d.joined = false := by
  cases hjoined : d.joined with
  | false => rfl
  | true =>
      rw [h.joined i d hi hjoined] at hlive
      cases hlive

/-- A controller that has the worker `w` behind it as well. -/
theorem Table.passes (h : Table s) (hi : s.threads i = some d) (hrole : d.role = .controller (.join w))
    (hw : ∀ j, ¬ AliveOn s w j) :
    ∀ v : Fin n, Lifecycle.passed (.join (w + 1) : ControllerPc n) v → ∀ j, ¬ AliveOn s v j := by
  intro v hv
  rcases (Nat.lt_succ_iff.1 hv).eq_or_lt with heq | hlt
  · obtain rfl := Fin.ext heq
    exact hw
  · exact h.passed i d (.join w) hi hrole (h.not_joined hi (by simp [Role.ended, hrole])) v hlt

/-- What a step of a thread of the pool does to the table. -/
theorem ThreadStep.table (h : Table s) (hs : ThreadStep s i s') :
    Table s' ∧ (∀ w j, AliveOn s' w j → AliveOn s w j) ∧ ∀ j, Unjoined s' j ↔ Unjoined s j := by
  cases hs with
  | worker d w pc pc' p hi hrole halive hst =>
      have hlive : d.role.ended = false := by simp [Role.ended, hrole, halive]
      have hback : ∀ v q, (.worker w pc' : Role n) = .worker v q → ∃ q', d.role = .worker v q' ∧ q' ≠ .exited := by
        intro v q hq
        cases hq
        exact ⟨pc, hrole, halive⟩
      have hp : Table { s with pool := p } := h.congr rfl rfl rfl
      refine ⟨hp.move hi hlive ?_ hback nofun, fun v j => alive_move (s := { s with pool := p }) hi hback,
        fun j => unjoined_move (s := { s with pool := p }) hi ?_⟩
      · intro v q hq
        rw [hrole] at hq
        cases hq
        exact ⟨pc', rfl⟩
      · simp [hrole]
  | controller d pc pc' p hi hrole halive hst hnext hjoin =>
      have hlive : d.role.ended = false := by simp [Role.ended, hrole, halive]
      have hp : Table { s with pool := p } := h.congr rfl rfl rfl
      refine ⟨hp.move hi hlive (by simp [hrole]) nofun ?_, fun v j => alive_move (s := { s with pool := p }) hi nofun,
        fun j => unjoined_move (s := { s with pool := p }) hi (by simp [hrole])⟩
      intro q hq w hw
      cases hq
      cases pc' with
      | join count =>
          obtain rfl := hjoin count rfl
          exact absurd hw (Nat.not_lt_zero _)
      | ended => exact absurd rfl hnext
      | _ => exact hw.elim
  | joined d w j e hi hrole hw hj hended =>
      have hne : i ≠ j := by
        rintro rfl
        obtain ⟨f, pc, hf, hworker⟩ := h.handle w i hw
        rw [hi] at hf
        cases hf
        rw [hrole] at hworker
        cases hworker
      have hi' : (join s j e).threads i = some d := (join_of_ne hne).trans hi
      have hcontrols : ∀ k, Unjoined s k → k ≠ j := by
        rintro k ⟨f, pc, hf, hcontroller, -⟩ rfl
        obtain ⟨f', pc', hf', hworker⟩ := h.handle w k hw
        rw [hf] at hf'
        cases hf'
        rw [hcontroller] at hworker
        cases hworker
      refine ⟨(h.joinThread hj hended).move hi' (by simp [Role.ended, hrole]) (by simp [hrole]) nofun ?_,
        fun v k hk => alive_join hj (alive_move hi' (by simp) hk), fun k => ?_⟩
      · intro pc hpc
        cases hpc
        have hpassed := h.passes hi hrole fun k hk => ?_
        · exact fun v hv k hk => hpassed v hv k (alive_join hj hk)
        obtain ⟨f, pc, hf, hworker, halive⟩ := id hk
        rw [h.slot w k hk] at hw
        cases hw
        rw [hf] at hj
        cases hj
        simp [Role.ended, hworker, halive] at hended
      · exact (unjoined_move hi' (by simp [hrole])).trans
          (unjoined_join.trans ⟨And.right, fun hk => ⟨hcontrols k hk, hk⟩⟩)
  | notJoined d w hi hrole hfail =>
      refine ⟨h.move hi (by simp [Role.ended, hrole]) (by simp [hrole]) nofun ?_, fun v k hk => alive_move hi (by simp) hk,
        fun k => unjoined_move hi (by simp [hrole])⟩
      intro pc hpc
      cases hpc
      refine h.passes hi hrole fun k hk => ?_
      obtain ⟨e, pc, he, hworker, halive⟩ := id hk
      have hended := h.joined k e he (hfail k e (h.slot w k hk) he)
      simp [Role.ended, hworker, halive] at hended
  | ended d count hi hrole hend =>
      refine ⟨h.move hi (by simp [Role.ended, hrole]) (by simp [hrole]) nofun ?_, fun v k hk => alive_move hi (by simp) hk,
        fun k => unjoined_move hi (by simp [hrole])⟩
      intro pc hpc v _
      exact h.passed i d (.join count) hi hrole (h.not_joined hi (by simp [Role.ended, hrole])) v
        (v.isLt.trans_le (not_lt.1 hend))

end Table

section Create

variable {s : State T n α} {i : Nat} {e : Thread n} {r : Role n} {w : Fin n}

theorem create_threads (he : (s.pthreadCreate r).threads i = some e) :
    (i = s.created ∧ e = { role := r, joined := false }) ∨ (i ≠ s.created ∧ s.threads i = some e) := by
  simp only [State.pthreadCreate] at he
  by_cases hi : i = s.created
  · subst hi
    rw [Function.update_self] at he
    exact Or.inl ⟨rfl, (Option.some.inj he).symm⟩
  · rw [Function.update_of_ne hi] at he
    exact Or.inr ⟨hi, he⟩

theorem create_self : (s.pthreadCreate r).threads s.created = some { role := r, joined := false } := by
  simp [State.pthreadCreate]

theorem Table.create_of_some (h : Table s) (he : s.threads i = some e) : (s.pthreadCreate r).threads i = some e := by
  have hi : i ≠ s.created := by
    rintro rfl
    rw [h.fresh _ le_rfl] at he
    cases he
  exact (Function.update_of_ne hi _ _).trans he

theorem Table.create_fresh (h : Table s) (hi : s.created + 1 ≤ i) : (s.pthreadCreate r).threads i = none :=
  (Function.update_of_ne (by omega) _ _).trans (h.fresh i (by omega))

theorem Table.create_joined (h : Table s) (he : (s.pthreadCreate r).threads i = some e) (hjoined : e.joined = true) :
    e.role.ended = true := by
  rcases create_threads he with ⟨-, rfl⟩ | ⟨-, he⟩
  · cases hjoined
  · exact h.joined i e he hjoined

/-- `pthread_create` for a worker whose record no thread runs on. -/
theorem Table.createWorker (h : Table s) (hw : ∀ i, ¬ AliveOn s w i) (hctl : ∀ i, ¬ Unjoined s i) :
    Table { s.pthreadCreate (.worker w .semWait) with thId := Function.update s.thId w (some s.created) } := by
  refine ⟨fun i hi => h.create_fresh hi, fun i e he => h.create_joined he, fun v i hv => ?_, ?_, ?_⟩
  · change Function.update s.thId w (some s.created) v = some i at hv
    by_cases hvw : v = w
    · subst hvw
      rw [Function.update_self] at hv
      cases hv
      exact ⟨_, .semWait, create_self, rfl⟩
    · rw [Function.update_of_ne hvw] at hv
      obtain ⟨e, pc, he, hrole⟩ := h.handle v i hv
      exact ⟨e, pc, h.create_of_some he, hrole⟩
  · rintro v i ⟨e, pc, he, hrole, halive⟩
    rcases create_threads he with ⟨rfl, rfl⟩ | ⟨-, he⟩
    · cases hrole
      exact Function.update_self _ _ _
    · have hv : AliveOn s v i := ⟨e, pc, he, hrole, halive⟩
      have hvw : v ≠ w := by
        rintro rfl
        exact hw i hv
      exact (Function.update_of_ne hvw _ _).trans (h.slot v i hv)
  · intro i e pc he hrole hjoined
    rcases create_threads he with ⟨-, rfl⟩ | ⟨-, he⟩
    · cases hrole
    · exact absurd ⟨e, pc, he, hrole, hjoined⟩ (hctl i)

theorem alive_createController (h : AliveOn (s.pthreadCreate (.controller .dequeueWait)) w i) : AliveOn s w i := by
  obtain ⟨e, pc, he, hrole, halive⟩ := h
  rcases create_threads he with ⟨-, rfl⟩ | ⟨-, he⟩
  · cases hrole
  · exact ⟨e, pc, he, hrole, halive⟩

/-- `pthread_create` for the controller. -/
theorem Table.createController (h : Table s) :
    Table { s.pthreadCreate (.controller .dequeueWait) with wpController := some s.created } := by
  refine ⟨fun i hi => h.create_fresh hi, fun i e he => h.create_joined he, fun v i hv => ?_,
    fun v i hv => h.slot v i (alive_createController hv), ?_⟩
  · obtain ⟨e, pc, he, hrole⟩ := h.handle v i hv
    exact ⟨e, pc, h.create_of_some he, hrole⟩
  · intro i e pc he hrole hjoined v hv j hj
    rcases create_threads he with ⟨-, rfl⟩ | ⟨-, he⟩
    · cases hrole
      exact hv.elim
    · exact h.passed i e pc he hrole hjoined v hv j (alive_createController hj)

end Create

/-- The start that holds the mutex creates threads. -/
def Pc.creates : Pc n → Bool
  | .startWaiting _ | .startCreate _ | .startController | .startFinish => true
  | _ => false

/-- What holds where the call is that holds the mutex. -/
def PcOk (s : State T n α) : Pc n → Prop
  | .startWaiting count => s.pool.status = .ready ∧ ∀ w i, count ≤ w.val → ¬ AliveOn s w i
  | .startCreate v => s.pool.status = .ready ∧ ∀ w i, v ≤ w → ¬ AliveOn s w i
  | .startController => s.pool.status = .ready
  | .startFinish => s.pool.status = .ready ∧ ∃ i, Unjoined s i
  | .shutClose | .shutJoin => s.pool.status = .working
  | .shutFinish => s.pool.status = .working ∧ (∀ i, ¬ Unjoined s i) ∧ ∀ w i, ¬ AliveOn s w i
  | .idle | .startStatus | .startLock | .shutLock | .shutCheck => True

/-- The status and the threads, where the call that holds the mutex is at `c`. -/
structure Order (s : State T n α) (c : Pc n) : Prop where
  controller : ∀ i, Unjoined s i → s.wpController = some i
  ready : s.pool.status = .ready → c ≠ .startFinish → ∀ i, ¬ Unjoined s i
  working : s.pool.status = .working → c ≠ .shutFinish → ∃ i, Unjoined s i
  /-- the threads that a shutdown or a start does not account for are those of a start that has failed -/
  alive : ∀ w i, AliveOn s w i → s.pool.status = .working ∨ c.creates = true ∨ ∃ o ∈ s.log, o.leaves = true
  starts : startsSince s.log = if s.pool.status = .working then 1 else 0
  place : PcOk s c

/-- Where the call is that holds the mutex. -/
def phase (s : State T n α) : Pc n :=
  match s.mutex with
  | none => .idle
  | some t => s.calls t

structure Inv (s : State T n α) : Prop where
  table : Table s
  locks : ∀ t, (s.calls t).locks = true ↔ s.mutex = some t
  order : Order s (phase s)

section Order

variable {s s' : State T n α} {c : Pc n}

theorem Order.congr (h : Order s c) (hst : s'.pool.status = s.pool.status) (hctl : s'.wpController = s.wpController)
    (halive : ∀ w i, AliveOn s' w i → AliveOn s w i) (hunj : ∀ i, Unjoined s' i ↔ Unjoined s i)
    (hstarts : startsSince s'.log = startsSince s.log) (hlog : s.log ⊆ s'.log) :
    Order s' c := by
  refine ⟨fun i hi => hctl.trans (h.controller i ((hunj i).1 hi)), ?_, ?_, ?_, ?_, ?_⟩
  · rw [hst]
    exact fun hready hc i hi => h.ready hready hc i ((hunj i).1 hi)
  · rw [hst]
    intro hworking hc
    obtain ⟨i, hi⟩ := h.working hworking hc
    exact ⟨i, (hunj i).2 hi⟩
  · intro w i hi
    rw [hst]
    rcases h.alive w i (halive w i hi) with hworking | hcreates | ⟨o, ho, hleaves⟩
    · exact Or.inl hworking
    · exact Or.inr (Or.inl hcreates)
    · exact Or.inr (Or.inr ⟨o, hlog ho, hleaves⟩)
  · rw [hst, hstarts]
    exact h.starts
  · have hplace := h.place
    cases c with
    | startWaiting count => exact ⟨hst.trans hplace.1, fun w i hw hi => hplace.2 w i hw (halive w i hi)⟩
    | startCreate v => exact ⟨hst.trans hplace.1, fun w i hw hi => hplace.2 w i hw (halive w i hi)⟩
    | startController | shutClose | shutJoin => exact hst.trans hplace
    | startFinish =>
        obtain ⟨hready, i, hi⟩ := hplace
        exact ⟨hst.trans hready, i, (hunj i).2 hi⟩
    | shutFinish =>
        exact ⟨hst.trans hplace.1, fun i hi => hplace.2.1 i ((hunj i).1 hi), fun w i hi => hplace.2.2 w i (halive w i hi)⟩
    | idle | startStatus | startLock | shutLock | shutCheck => trivial

theorem Order.same (h : Order s c) (hst : s'.pool.status = s.pool.status) (hctl : s'.wpController = s.wpController)
    (hthreads : s'.threads = s.threads) (hlog : s'.log = s.log) : Order s' c :=
  h.congr hst hctl (fun w i => by simp only [AliveOn, hthreads, imp_self]) (fun i => by simp only [Unjoined, hthreads])
    (by rw [hlog]) (by rw [hlog]; exact List.Subset.refl _)

theorem ThreadStep.frame {i : Nat} (hs : ThreadStep s i s') :
    s'.calls = s.calls ∧ s'.mutex = s.mutex ∧ s'.log = s.log ∧ s'.wpController = s.wpController ∧
      s'.pool.status = s.pool.status := by
  cases hs with
  | worker _ _ _ _ _ _ _ _ hst | controller _ _ _ _ _ _ _ hst _ _ => exact ⟨rfl, rfl, rfl, rfl, hst⟩
  | joined _ _ _ _ _ _ _ _ _ | notJoined _ _ _ _ _ | ended _ _ _ _ _ => exact ⟨rfl, rfl, rfl, rfl, rfl⟩

theorem phase_congr (hcalls : s'.calls = s.calls) (hmutex : s'.mutex = s.mutex) : phase s' = phase s := by
  unfold phase
  rw [hcalls, hmutex]

theorem phase_free (hmutex : s.mutex = none) : phase s = .idle := by simp only [phase, hmutex]

/-- The call of `t`, when it is in its locked section. -/
theorem Inv.holds {t : T} (h : Inv s) (hpc : s.calls t = c) (hlocks : c.locks = true) : s.mutex = some t ∧ Order s c := by
  have hmutex := (h.locks t).1 (by rw [hpc]; exact hlocks)
  have horder := h.order
  simp only [phase, hmutex, hpc] at horder
  exact ⟨hmutex, horder⟩

theorem Inv.thread {i : Nat} (h : Inv s) (hs : ThreadStep s i s') : Inv s' := by
  obtain ⟨htable, halive, hunj⟩ := hs.table h.table
  obtain ⟨hcalls, hmutex, hlog, hctl, hst⟩ := hs.frame
  refine ⟨htable, by rw [hcalls, hmutex]; exact h.locks, ?_⟩
  rw [phase_congr hcalls hmutex]
  exact h.order.congr hst hctl halive hunj (by rw [hlog]) (by rw [hlog]; exact List.Subset.refl _)

end Order

section Calls

variable {s s' : State T n α} {c a : Pc n} {t : T}

/-- The call that holds the mutex, or has just taken it, is somewhere else. -/
theorem Order.moved (h : Order s c) (hstart : c ≠ .startFinish) (hshut : c ≠ .shutFinish)
    (hcreates : c.creates = true → a.creates = true) (hplace : PcOk s a) : Order s a := by
  refine ⟨h.controller, fun hready _ => h.ready hready hstart, fun hworking _ => h.working hworking hshut,
    fun w i hi => ?_, h.starts, hplace⟩
  rcases h.alive w i hi with hworking | hc | hfailed
  · exact Or.inl hworking
  · exact Or.inr (Or.inl (hcreates hc))
  · exact Or.inr (Or.inr hfailed)

/-- A start that returns 0. -/
theorem Order.started (h : Order s .startFinish) (hst : s'.pool.status = .working)
    (hthreads : s'.threads = s.threads) (hctl : s'.wpController = s.wpController) (hlog : s'.log = .started :: s.log) :
    Order s' .idle := by
  obtain ⟨hready, i, hi⟩ := h.place
  have hunj : ∀ j, Unjoined s' j ↔ Unjoined s j := fun j => by simp only [Unjoined, hthreads]
  refine ⟨fun j hj => hctl.trans (h.controller j ((hunj j).1 hj)), fun hr => ?_, fun _ _ => ⟨i, (hunj i).2 hi⟩,
    fun _ _ _ => Or.inl hst, ?_, trivial⟩
  · rw [hst] at hr
    cases hr
  · have hstarts := h.starts
    rw [hready] at hstarts
    simp [hlog, hst, startsSince, hstarts]

/-- A start whose `pthread_create` has failed, after `k` threads. -/
theorem Order.failed {k : Nat} (h : Order s c) (hready : s.pool.status = .ready) (hc : c ≠ .startFinish)
    (hnone : k = 0 → ∀ w i, ¬ AliveOn s w i) (hst : s'.pool.status = s.pool.status)
    (hthreads : s'.threads = s.threads) (hctl : s'.wpController = s.wpController)
    (hlog : s'.log = .failed k :: s.log) : Order s' .idle := by
  have hunj : ∀ j, Unjoined s' j ↔ Unjoined s j := fun j => by simp only [Unjoined, hthreads]
  have hstarts := h.starts
  rw [← hst] at hready hstarts
  refine ⟨fun j hj => hctl.trans (h.controller j ((hunj j).1 hj)), ?_, fun hw => ?_, fun w i hi => ?_, ?_, trivial⟩
  · exact fun _ _ j hj => h.ready (hst.symm.trans hready) hc j ((hunj j).1 hj)
  · rw [hready] at hw
    cases hw
  · have hi' : AliveOn s w i := by simpa only [AliveOn, hthreads] using hi
    have hk : k ≠ 0 := fun hk => hnone hk w i hi'
    exact Or.inr (Or.inr ⟨.failed k, by simp [hlog], by simp [Outcome.leaves, hk]⟩)
  · rw [hlog]
    exact hstarts

/-- A shutdown that has joined the controller. -/
theorem Order.shutdown (h : Order s .shutFinish) (hst : s'.pool.status = .ready) (hthreads : s'.threads = s.threads)
    (hlog : s'.log = .shutdown :: s.log) : Order s' .idle := by
  obtain ⟨-, hjoined, hdead⟩ := h.place
  have hunj : ∀ j, ¬ Unjoined s' j := fun j hj => hjoined j (by simpa only [Unjoined, hthreads] using hj)
  refine ⟨fun j hj => absurd hj (hunj j), fun _ _ => hunj, fun hw => ?_, fun w i hi => ?_, ?_, trivial⟩
  · rw [hst] at hw
    cases hw
  · exact absurd (by simpa only [AliveOn, hthreads] using hi) (hdead w i)
  · simp [hlog, hst, startsSince]

/-- Once the controller has ended, the worker threads have. -/
theorem Order.join {i : Nat} {d : Thread n} (h : Order s .shutJoin) (ht : Table s) (hctl : s.wpController = some i)
    (hi : s.threads i = some d) (hended : d.role.ended = true) : Order (join s i d) .shutFinish := by
  have hworking : s.pool.status = .working := h.place
  have honly : ∀ k, Unjoined s k → k = i := fun k hk => Option.some.inj ((h.controller k hk).symm.trans hctl)
  obtain ⟨k, hk⟩ := h.working hworking nofun
  obtain rfl := honly k hk
  obtain ⟨e, pc, he, hrole, hjoined⟩ := hk
  obtain rfl := Option.some.inj (he.symm.trans hi)
  have hpc : pc = .ended := by simpa [Role.ended, hrole] using hended
  subst hpc
  have hdead : ∀ w j, ¬ AliveOn (Lifecycle.join s k e) w j := fun w j hj =>
    ht.passed k e .ended hi hrole hjoined w trivial j (alive_join hi hj)
  have hunj : ∀ j, ¬ Unjoined (Lifecycle.join s k e) j := by
    intro j hj
    obtain ⟨hne, hj⟩ := unjoined_join.1 hj
    exact hne (honly j hj)
  exact ⟨fun j hj => absurd hj (hunj j), fun _ _ => hunj, fun _ hne => absurd rfl hne, fun w j hj => absurd hj (hdead w j),
    h.starts, hworking, hunj, hdead⟩

theorem Order.createWorker {w : Fin n} (h : Order s (.startCreate w)) :
    Order { s.pthreadCreate (.worker w .semWait) with thId := Function.update s.thId w (some s.created) }
      (.startWaiting (w + 1)) := by
  obtain ⟨hready, hnone⟩ := h.place
  have hunj : ∀ i, ¬ Unjoined (s.pthreadCreate (.worker w .semWait)) i := by
    rintro i ⟨e, pc, he, hrole, hjoined⟩
    rcases create_threads he with ⟨-, rfl⟩ | ⟨-, he⟩
    · cases hrole
    · exact h.ready hready nofun i ⟨e, pc, he, hrole, hjoined⟩
  refine ⟨fun i hi => absurd hi (hunj i), fun _ _ => hunj, fun hw => ?_, fun _ _ _ => Or.inr (Or.inl rfl), h.starts,
    hready, ?_⟩
  · cases hready.symm.trans hw
  · rintro v i hv ⟨e, pc, he, hrole, halive⟩
    rcases create_threads he with ⟨-, rfl⟩ | ⟨-, he⟩
    · cases hrole
      omega
    · exact hnone v i (Fin.le_def.2 (by omega)) ⟨e, pc, he, hrole, halive⟩

theorem Order.createController (h : Order s .startController) :
    Order { s.pthreadCreate (.controller .dequeueWait) with wpController := some s.created } .startFinish := by
  have hready : s.pool.status = .ready := h.place
  refine ⟨?_, fun _ hne => absurd rfl hne, fun hw => ?_, fun _ _ _ => Or.inr (Or.inl rfl), h.starts, hready,
    s.created, _, .dequeueWait, create_self, rfl, rfl⟩
  · rintro i ⟨e, pc, he, hrole, hjoined⟩
    rcases create_threads he with ⟨rfl, -⟩ | ⟨-, he⟩
    · rfl
    · exact absurd ⟨e, pc, he, hrole, hjoined⟩ (h.ready hready nofun i)
  · cases hready.symm.trans hw

end Calls

section Held

/-- Nobody but the call that holds the mutex is in its locked section. -/
def Held (s : State T n α) : Prop := ∀ t, (s.calls t).locks = true ↔ s.mutex = some t

variable [DecidableEq T] {s s' : State T n α} {t : T} {c : Pc n} {l : Label T n α}

theorem Held.outside (h : Held s) (hbefore : (s.calls t).locks = false) (hafter : c.locks = false)
    (hmutex : s'.mutex = s.mutex) (hcalls : s'.calls = Function.update s.calls t c) : Held s' := by
  intro u
  rw [hcalls, hmutex]
  by_cases hu : u = t
  · subst hu
    rw [Function.update_self, hafter, ← h, hbefore]
  · rw [Function.update_of_ne hu]
    exact h u

theorem Held.inside (h : Held s) (hbefore : s.mutex = none ∨ s.mutex = some t) (hafter : c.locks = true)
    (hmutex : s'.mutex = some t) (hcalls : s'.calls = Function.update s.calls t c) : Held s' := by
  intro u
  rw [hcalls, hmutex]
  by_cases hu : u = t
  · subst hu
    rw [Function.update_self]
    exact iff_of_true hafter rfl
  · rw [Function.update_of_ne hu, h u]
    refine iff_of_false ?_ (fun heq => hu (Option.some.inj heq).symm)
    rcases hbefore with hb | hb
    · simp [hb]
    · rw [hb]
      exact fun heq => hu (Option.some.inj heq).symm

theorem Held.leave (h : Held s) (hbefore : (s.calls t).locks = true) (hmutex : s'.mutex = none)
    (hcalls : s'.calls = Function.update s.calls t .idle) : Held s' := by
  intro u
  rw [hcalls, hmutex]
  by_cases hu : u = t
  · subst hu
    rw [Function.update_self]
    exact iff_of_false nofun nofun
  · rw [Function.update_of_ne hu, h u, (h t).1 hbefore]
    exact iff_of_false (fun heq => hu (Option.some.inj heq).symm) nofun

theorem Held.call (h : Held s) (hs : CallStep s t s') : Held s' := by
  -- a call that is in its locked section holds the mutex
  have hmine : ∀ {c : Pc n}, s.calls t = c → c.locks = true → s.mutex = some t := fun hpc hlocks =>
    (h t).1 (by rw [hpc]; exact hlocks)
  cases hs with
  | refused hpc _ _ => exact h.outside (c := .idle) (by rw [hpc]; rfl) rfl rfl rfl
  | statusOk hpc _ _ => exact h.outside (c := .startLock) (by rw [hpc]; rfl) rfl rfl rfl
  | startLock hpc hfree => exact h.inside (c := .startWaiting 0) (Or.inl hfree) rfl rfl rfl
  | setWaiting w hpc =>
      exact h.inside (c := .startCreate w) (Or.inr (hmine hpc rfl)) rfl (hmine hpc rfl) rfl
  | allCreated count hpc _ =>
      exact h.inside (c := .startController) (Or.inr (hmine hpc rfl)) rfl (hmine hpc rfl) rfl
  | createWorker w hpc =>
      exact h.inside (c := .startWaiting (w + 1)) (Or.inr (hmine hpc rfl)) rfl (hmine hpc rfl) rfl
  | createController hpc =>
      exact h.inside (c := .startFinish) (Or.inr (hmine hpc rfl)) rfl (hmine hpc rfl) rfl
  | shutLock hpc hfree => exact h.inside (c := .shutCheck) (Or.inl hfree) rfl rfl rfl
  | shutCheck hpc _ => exact h.inside (c := .shutClose) (Or.inr (hmine hpc rfl)) rfl (hmine hpc rfl) rfl
  | close hpc => exact h.inside (c := .shutJoin) (Or.inr (hmine hpc rfl)) rfl (hmine hpc rfl) rfl
  | joined i d hpc _ _ _ => exact h.inside (c := .shutFinish) (Or.inr (hmine hpc rfl)) rfl (hmine hpc rfl) rfl
  | started hpc | nothing hpc _ | notJoined hpc _ | shutdown hpc => exact h.leave (by rw [hpc]; rfl) rfl rfl

/-- Every step keeps it, careful or not. -/
theorem Held.step (h : Held s) (hs : Step s l s') : Held s' := by
  cases hs with
  | callStart t hidle => exact h.outside (c := .startStatus) (by rw [hidle]; rfl) rfl rfl rfl
  | callShutdown t hidle => exact h.outside (c := .shutLock) (by rw [hidle]; rfl) rfl rfl rfl
  | call t hcall => exact h.call hcall
  | workerFails t w hpc => exact h.leave (by rw [hpc]; rfl) rfl rfl
  | controllerFails t hpc => exact h.leave (by rw [hpc]; rfl) rfl rfl
  | thread i hthread | taskReturn i hthread =>
      obtain ⟨hcalls, hmutex, -⟩ := hthread.frame
      unfold Held
      rw [hcalls, hmutex]
      exact h
  | client a p _ _ _ => exact h

theorem held_reachable {bound : Nat} (h : Lts.Reachable (system T n α bound) s) : Held s :=
  h.invariant (fun s hs => by rw [hs]; exact fun _ => iff_of_false nofun nofun) fun _ _ _ hi _ hs => hi.step (.of hs)

end Held

section Steps

variable [DecidableEq T] {s s' : State T n α} {t : T} {c : Pc n} {l : Label T n α}

/-- A call outside its locked section goes on outside of it. -/
theorem Inv.outside (h : Inv s) (hbefore : (s.calls t).locks = false) (hafter : c.locks = false)
    (hst : s'.pool = s.pool) (hmutex : s'.mutex = s.mutex) (hcalls : s'.calls = Function.update s.calls t c)
    (htable : Table s') (hthreads : s'.threads = s.threads) (hctl : s'.wpController = s.wpController)
    (hstarts : startsSince s'.log = startsSince s.log) (hlog : s.log ⊆ s'.log) :
    Inv s' := by
  have hother : ∀ u, s.mutex = some u → u ≠ t := by
    rintro u hu rfl
    rw [(h.locks u).2 hu] at hbefore
    cases hbefore
  refine ⟨htable, Held.outside h.locks hbefore hafter hmutex hcalls, ?_⟩
  have hphase : phase s' = phase s := by
    unfold phase
    rw [hmutex]
    cases hm : s.mutex with
    | none => rfl
    | some u => simp only [hcalls, Function.update_of_ne (hother u hm)]
  rw [hphase]
  exact h.order.congr (by rw [hst]) hctl (fun w i => by simp only [AliveOn, hthreads, imp_self])
    (fun i => by simp only [Unjoined, hthreads]) hstarts hlog

/-- A call goes on in its locked section, or enters it. -/
theorem Inv.inside (h : Inv s) (hbefore : s.mutex = none ∨ s.mutex = some t) (hafter : c.locks = true)
    (hmutex : s'.mutex = some t) (hcalls : s'.calls = Function.update s.calls t c) (htable : Table s')
    (horder : Order s' c) : Inv s' := by
  refine ⟨htable, Held.inside h.locks hbefore hafter hmutex hcalls, ?_⟩
  have hphase : phase s' = c := by simp only [phase, hmutex, hcalls, Function.update_self]
  rw [hphase]
  exact horder

/-- A call leaves its locked section and returns. -/
theorem Inv.leave (h : Inv s) (hbefore : (s.calls t).locks = true) (hmutex : s'.mutex = none)
    (hcalls : s'.calls = Function.update s.calls t .idle) (htable : Table s') (horder : Order s' .idle) : Inv s' := by
  refine ⟨htable, Held.leave h.locks hbefore hmutex hcalls, ?_⟩
  rw [phase_free hmutex]
  exact horder

theorem call_inv (h : Inv s) (hok : Careful s (.call t)) (hs : CallStep s t s') : Inv s' := by
  have ht := h.table
  cases hs with
  | refused hpc _ _ =>
      exact h.outside (c := .idle) (by rw [hpc]; rfl) rfl rfl rfl rfl (ht.congr rfl rfl rfl) rfl rfl rfl
        (List.subset_cons_self _ _)
  | statusOk hpc _ _ =>
      exact h.outside (c := .startLock) (by rw [hpc]; rfl) rfl rfl rfl rfl (ht.congr rfl rfl rfl) rfl rfl rfl
        (List.Subset.refl _)
  | startLock hpc hfree =>
      obtain ⟨hready, hclean⟩ := hok hpc
      have horder := h.order
      rw [phase_free hfree] at horder
      have hnone : ∀ w i, ¬ AliveOn s w i := by
        intro w i hi
        rcases horder.alive w i hi with hworking | hcreates | ⟨o, ho, hleaves⟩
        · cases hready.symm.trans hworking
        · cases hcreates
        · rw [hclean o ho] at hleaves
          cases hleaves
      exact h.inside (Or.inl hfree) rfl rfl rfl (ht.congr rfl rfl rfl)
        ((horder.moved (a := .startWaiting 0) nofun nofun nofun ⟨hready, fun w i _ => hnone w i⟩).same rfl rfl rfl rfl)
  | setWaiting w hpc =>
      obtain ⟨hmine, horder⟩ := h.holds hpc rfl
      obtain ⟨hready, hnone⟩ := horder.place
      exact h.inside (Or.inr hmine) rfl hmine rfl (ht.congr rfl rfl rfl)
        ((horder.moved (a := .startCreate w) nofun nofun (fun _ => rfl)
          ⟨hready, fun v i hv => hnone v i hv⟩).same rfl rfl rfl rfl)
  | allCreated count hpc _ =>
      obtain ⟨hmine, horder⟩ := h.holds hpc rfl
      exact h.inside (Or.inr hmine) rfl hmine rfl (ht.congr rfl rfl rfl)
        ((horder.moved (a := .startController) nofun nofun (fun _ => rfl) horder.place.1).same rfl rfl rfl rfl)
  | createWorker w hpc =>
      obtain ⟨hmine, horder⟩ := h.holds hpc rfl
      obtain ⟨hready, hnone⟩ := horder.place
      exact h.inside (Or.inr hmine) rfl hmine rfl
        ((ht.createWorker (fun i => hnone w i (Nat.le_refl _)) (horder.ready hready nofun)).congr rfl rfl rfl)
        (horder.createWorker.same rfl rfl rfl rfl)
  | createController hpc =>
      obtain ⟨hmine, horder⟩ := h.holds hpc rfl
      exact h.inside (Or.inr hmine) rfl hmine rfl (ht.createController.congr rfl rfl rfl)
        (horder.createController.same rfl rfl rfl rfl)
  | started hpc =>
      obtain ⟨-, horder⟩ := h.holds hpc rfl
      exact h.leave (by rw [hpc]; rfl) rfl rfl (ht.congr rfl rfl rfl) (horder.started rfl rfl rfl rfl)
  | shutLock hpc hfree =>
      have horder := h.order
      rw [phase_free hfree] at horder
      exact h.inside (Or.inl hfree) rfl rfl rfl (ht.congr rfl rfl rfl)
        ((horder.moved (a := .shutCheck) nofun nofun nofun trivial).same rfl rfl rfl rfl)
  | nothing hpc _ =>
      obtain ⟨-, horder⟩ := h.holds hpc rfl
      exact h.leave (by rw [hpc]; rfl) rfl rfl (ht.congr rfl rfl rfl)
        ((horder.moved (a := .idle) nofun nofun nofun trivial).congr rfl rfl (fun _ _ => id) (fun _ => Iff.rfl) rfl
          (List.subset_cons_self _ _))
  | shutCheck hpc hworking =>
      obtain ⟨hmine, horder⟩ := h.holds hpc rfl
      exact h.inside (Or.inr hmine) rfl hmine rfl (ht.congr rfl rfl rfl)
        ((horder.moved (a := .shutClose) nofun nofun nofun hworking).same rfl rfl rfl rfl)
  | close hpc =>
      obtain ⟨hmine, horder⟩ := h.holds hpc rfl
      exact h.inside (Or.inr hmine) rfl hmine rfl (ht.congr rfl rfl rfl)
        ((horder.moved (a := .shutJoin) nofun nofun nofun horder.place).same rfl rfl rfl rfl)
  | joined i d hpc hctl hi hended =>
      obtain ⟨hmine, horder⟩ := h.holds hpc rfl
      exact h.inside (c := .shutFinish) (Or.inr hmine) rfl hmine rfl ((ht.joinThread hi hended).congr rfl rfl rfl)
        ((horder.join ht hctl hi hended).same rfl rfl rfl rfl)
  | notJoined hpc hfail =>
      -- the controller that the status stands for is not joined
      obtain ⟨-, horder⟩ := h.holds hpc rfl
      obtain ⟨i, hunj⟩ := horder.working horder.place nofun
      obtain ⟨d, pc, hi, hrole, hjoined⟩ := id hunj
      rw [hfail i d (horder.controller i hunj) hi] at hjoined
      cases hjoined
  | shutdown hpc =>
      obtain ⟨-, horder⟩ := h.holds hpc rfl
      exact h.leave (by rw [hpc]; rfl) rfl rfl (ht.congr rfl rfl rfl) (horder.shutdown rfl rfl rfl)

/-- Every step that is careful keeps the life cycle in order. -/
theorem step_inv (h : Inv s) (hok : Careful s l) (hs : s.step l = some s') : Inv s' := by
  cases Step.of hs with
  | callStart t hidle =>
      exact h.outside (c := .startStatus) (by rw [hidle]; rfl) rfl rfl rfl rfl (h.table.congr rfl rfl rfl) rfl rfl
        rfl (List.Subset.refl _)
  | callShutdown t hidle =>
      exact h.outside (c := .shutLock) (by rw [hidle]; rfl) rfl rfl rfl rfl (h.table.congr rfl rfl rfl) rfl rfl
        rfl (List.Subset.refl _)
  | call t hcall => exact call_inv h hok hcall
  | workerFails t w hpc =>
      obtain ⟨-, horder⟩ := h.holds hpc rfl
      obtain ⟨hready, hnone⟩ := horder.place
      refine h.leave (by rw [hpc]; rfl) rfl rfl (h.table.congr rfl rfl rfl)
        (horder.failed hready nofun (fun hw v i => hnone v i ?_) rfl rfl rfl rfl)
      exact Fin.le_def.2 (hw ▸ Nat.zero_le _)
  | controllerFails t hpc =>
      obtain ⟨-, horder⟩ := h.holds hpc rfl
      refine h.leave (by rw [hpc]; rfl) rfl rfl (h.table.congr rfl rfl rfl)
        (horder.failed horder.place nofun (fun hn v => ?_) rfl rfl rfl rfl)
      exact absurd v.isLt (by omega)
  | thread i hthread => exact h.thread hthread
  | taskReturn i hthread => exact h.thread hthread
  | client a p _ _ hst => exact ⟨h.table.congr rfl rfl rfl, h.locks, h.order.same hst rfl rfl rfl⟩

theorem start_inv (T : Type*) (n : Nat) (α : Type) (bound : Nat) : Inv (start T n α bound) := by
  refine ⟨⟨fun _ _ => rfl, nofun, nofun, ?_, nofun⟩, fun t => iff_of_false nofun nofun,
    ?_, nofun, nofun, ?_, rfl, trivial⟩
  · rintro w i ⟨d, pc, hi, -⟩
    cases hi
  · rintro i ⟨d, pc, hi, -⟩
    cases hi
  · rintro w i ⟨d, pc, hi, -⟩
    cases hi

theorem inv_reachable {bound : Nat} (h : Lts.ReachableIf (system T n α bound) Careful s) : Inv s :=
  h.invariant (fun s hs => by rw [hs]; exact start_inv T n α bound) fun _ _ _ => step_inv

omit [DecidableEq T] in
theorem Inv.tidy (h : Inv s) : Tidy s where
  oneController := by
    have hunj : ∀ i, AliveController s i → s.wpController = some i := by
      rintro i ⟨d, pc, hi, hrole, halive⟩
      refine h.order.controller i ⟨d, pc, hi, hrole, h.table.not_joined hi ?_⟩
      simp [Role.ended, hrole, halive]
    exact fun i j hi hj => Option.some.inj ((hunj i hi).symm.trans (hunj j hj))
  oneWorker w i j hi hj := Option.some.inj ((h.table.slot w i hi).symm.trans (h.table.slot w j hj))
  oneStart := by
    rw [h.order.starts]
    split <;> omega
  working hfree := by
    have horder := h.order
    rw [phase_free hfree] at horder
    refine ⟨fun hworking => horder.working hworking nofun, fun ⟨i, hi⟩ => ?_⟩
    cases hst : s.pool.status with
    | working => rfl
    | ready => exact absurd hi (horder.ready hst nofun i)

/-- **The life cycle.** However many threads start a pool and shut it down: as long as a start takes the
mutex only of a pool that is ready, and that no failed start has left with threads, there are at most
one controller and one thread for each worker, at most one start returns 0 until the next shutdown has
joined the controller, and the status tells whether there is a controller to join. -/
theorem tidy_lifecycle {bound : Nat} (h : Lts.ReachableIf (system T n α bound) Careful s) : Tidy s :=
  (inv_reachable h).tidy

instance (s : State T n α) (l : Label T n α) : Decidable (Careful s l) :=
  match l with
  | .call t => inferInstanceAs
      (Decidable (s.calls t = .startLock → s.pool.status = .ready ∧ ∀ o ∈ s.log, o.leaves = false))
  | .callStart _ | .callShutdown _ | .createFails _ | .thread _ | .taskReturn _ | .client _ => .isTrue trivial

end Steps

/-- A pool of one worker is started, shut down and started again. -/
theorem tidy_lifecycle_restart : ∃ s : State Bool 1 Unit, Lts.ReachableIf (system Bool 1 Unit 1) Careful s ∧
    s.log = [.started, .shutdown, .started] ∧ Tidy s := by
  obtain ⟨s, hs, hp⟩ := Lts.exec_of_any (f := Lts.guarded Careful State.step) (s := start Bool 1 Unit 1)
    (p := fun s => decide (s.log = [.started, .shutdown, .started]))
    (l := List.flatten [.callStart true :: List.replicate 7 (.call true), .callShutdown false :: List.replicate 3 (.call false),
      List.replicate 5 (.thread 1), List.replicate 3 (.thread 0), List.replicate 2 (.thread 1),
      List.replicate 2 (.call false), .callStart true :: List.replicate 7 (.call true)]) (by decide +kernel)
  have hreach : Lts.ReachableIf (system Bool 1 Unit 1) Careful s := ⟨_, rfl, Lts.exec_guarded_run hs⟩
  exact ⟨s, hreach, of_decide_eq_true hp, tidy_lifecycle hreach⟩

/-- Two threads read that the pool is ready, and both start it: both calls return 0, the one worker has
two threads, and there are two controllers. -/
theorem starts_twice : ∃ s : State Bool 1 Unit, Lts.Reachable (system Bool 1 Unit 1) s ∧ startsSince s.log = 2 ∧
    AliveOn s 0 0 ∧ AliveOn s 0 2 ∧ AliveController s 1 ∧ AliveController s 3 ∧ ¬ Tidy s := by
  obtain ⟨s, hs, hp⟩ := Lts.exec_of_any (f := State.step) (s := start Bool 1 Unit 1)
    (p := fun s => decide (startsSince s.log = 2 ∧ (s.threads 0).map Thread.role = some (.worker 0 .semWait) ∧
      (s.threads 2).map Thread.role = some (.worker 0 .semWait) ∧
      (s.threads 1).map Thread.role = some (.controller .dequeueWait) ∧
      (s.threads 3).map Thread.role = some (.controller .dequeueWait)))
    (l := List.flatten [[.callStart true, .callStart false, .call true, .call false], List.replicate 6 (.call true),
      List.replicate 6 (.call false)]) (by decide +kernel)
  obtain ⟨hstarts, h0, h2, h1, h3⟩ := of_decide_eq_true hp
  obtain ⟨d0, hd0, hrole0⟩ := Option.map_eq_some_iff.1 h0
  obtain ⟨d1, hd1, hrole1⟩ := Option.map_eq_some_iff.1 h1
  obtain ⟨d2, hd2, hrole2⟩ := Option.map_eq_some_iff.1 h2
  obtain ⟨d3, hd3, hrole3⟩ := Option.map_eq_some_iff.1 h3
  refine ⟨s, Lts.exec_reachable rfl hs, hstarts, ⟨d0, _, hd0, hrole0, nofun⟩, ⟨d2, _, hd2, hrole2, nofun⟩,
    ⟨d1, _, hd1, hrole1, nofun⟩, ⟨d3, _, hd3, hrole3, nofun⟩, fun htidy => ?_⟩
  have hone := htidy.oneStart
  omega

end ComplexSim.Lifecycle
