import ComplexSim.Engine.Books
import ComplexSim.Events.Count
import ComplexSim.Events.Slice
import ComplexSim.Lib.Tally
import ComplexSim.Lib.Threads
import ComplexSim.Lib.Traces
import Mathlib.Data.Prod.Lex

/-!
# The two ways of raising a tick (`src/cs_events.c`)

`cs_evm_throw_scheduled_events` throws the events of a time one after the other, from a list that stays in the
tree: what a handler schedules for the time is appended to the list that is walked. `_ev_controller` takes the list
out of the tree first, and its workers walk slices of it: what a handler schedules for the time makes a new list.

A handler acts on what the program's handlers share when it begins, and leaves requests, which its thread makes one
by one. The synchronous call has the lock of the tree and the only thread; the workers take turns.
-/

namespace ComplexSim.Raising

open Events Engine

variable {δ σ : Type} {W : Nat}

/-- What `cs_evm_get_handler` finds for a type. -/
abbrev Handlers (δ σ : Type) := String → Option (CsEvent δ → σ → σ × List (Due δ))

/-- `cs_evm_throw_event`: the state after the handler and its requests; `none` if the assertion on the type fails. -/
def csEvmThrowEvent (handlers : Handlers δ σ) (ev : CsEvent δ) (user : σ) : Option (σ × List (Due δ)) :=
  match ev.etype with
  | none => none
  | some etype => match handlers etype with
      | none => some (user, [])
      | some handler => some (handler ev user)

/-- The effect of an event that is thrown. -/
def raise (handlers : Handlers δ σ) (ev : CsEvent δ) (user : σ) : σ × List (Due δ) :=
  (csEvmThrowEvent handlers ev user).getD (user, [])

/-- Requests that are made one after the other. -/
def scheduleAll (reqs : List (Due δ)) (t : EvTree δ) : EvTree δ :=
  reqs.foldl (fun t x => (csEvmScheduleEvent x.ev x.time t).1) t

/-- The events of a time, in the order of their list. -/
def chainAt (t : EvTree δ) (time : Int) : List (CsEvent δ) := (t.find? time).elim [] CsEventList.chain

/-- The requests for a time that are not refused. -/
def own (time : Int) (reqs : List (Due δ)) : List (CsEvent δ) := ((accepts reqs).filter (·.time = time)).map Due.ev

section Synchronous

/-- The synchronous call, before it deletes the list. -/
structure Throwing (δ σ : Type) where
  evTree : EvTree δ
  user : σ
  thrown : List (CsEvent δ)
  c : Int

/-- The loop of `cs_evm_throw_scheduled_events` from the item at `cur` on, with at most `fuel` turns; the list has a
head, so that it may be tested at the top. `none` also stands for a failed assertion. -/
def throwLoop (handlers : Handlers δ σ) (time : Int) : Nat → Nat → Throwing δ σ → Option (Throwing δ σ)
  | 0, _, _ => none
  | fuel + 1, cur, s => match (chainAt s.evTree time)[cur]? with
      | none => some s
      | some ev => (csEvmThrowEvent handlers ev s.user).bind fun (user, reqs) =>
          throwLoop handlers time fuel (cur + 1) {
            evTree := scheduleAll reqs s.evTree
            user := user
            thrown := s.thrown ++ [ev]
            c := int32 (s.c + 1) }

/-- `cs_evm_delete_events`, with the number of times that it frees the record of the list: `destroy_event_list` does,
and it does so itself. -/
def csEvmDeleteEvents (t : EvTree δ) (time : Int) : EvTree δ × Nat :=
  match t.find? time with
  | none => (t.delete time, 0)
  | some _ => (t.delete time, 2)

/-- What `cs_evm_throw_scheduled_events` leaves and returns. -/
structure Raised (δ σ : Type) where
  evTree : EvTree δ
  user : σ
  thrown : List (CsEvent δ)
  ret : Int
  frees : Nat

/-- `cs_evm_throw_scheduled_events`. -/
def csEvmThrowScheduledEvents (handlers : Handlers δ σ) (fuel : Nat) (time : Int) (t : EvTree δ) (user : σ) :
    Option (Raised δ σ) :=
  match t.find? time with
  | none => some { evTree := t, user := user, thrown := [], ret := 0, frees := 0 }
  | some evList =>
      if evList.count = 0 then some { evTree := t, user := user, thrown := [], ret := 0, frees := 0 }
      else
        (throwLoop handlers time fuel 0 { evTree := t, user := user, thrown := [], c := 0 }).map fun s =>
          let (evTree, frees) := csEvmDeleteEvents s.evTree time
          { evTree := evTree, user := s.user, thrown := s.thrown, ret := s.c, frees := frees }

end Synchronous

section Requests

variable {handlers : Handlers δ σ} {t : EvTree δ} {ev : CsEvent δ} {time : Int} {user : σ} {reqs reqs' : List (Due δ)}

theorem raise_of_throw {r : σ × List (Due δ)} (h : csEvmThrowEvent handlers ev user = some r) :
    raise handlers ev user = r := by
  rw [raise, h]
  rfl

theorem throw_of_typed (handlers : Handlers δ σ) (user : σ) (h : ev.etype ≠ none) : csEvmThrowEvent handlers ev user = some (raise handlers ev user) := by
  obtain ⟨etype, hetype⟩ := Option.ne_none_iff_exists'.1 h
  have hsome : ∃ r, csEvmThrowEvent handlers ev user = some r := by
    simp only [csEvmThrowEvent, hetype]
    cases handlers etype with
    | none => exact ⟨_, rfl⟩
    | some handler => exact ⟨_, rfl⟩
  obtain ⟨r, hr⟩ := hsome
  rw [raise_of_throw hr, hr]

theorem scheduleAll_append : scheduleAll (reqs ++ reqs') t = scheduleAll reqs' (scheduleAll reqs t) :=
  List.foldl_append ..

theorem own_append : own time (reqs ++ reqs') = own time reqs ++ own time reqs' := by
  rw [own, accepts_append, List.filter_append, List.map_append]
  rfl

theorem own_eq_nil : own time reqs = [] ↔ ∀ x ∈ accepts reqs, x.time ≠ time := by
  simp [own, List.filter_eq_nil_iff]

/-- A tree holds what it held and the requests that are not refused. -/
theorem scheduleAll_pending (reqs : List (Due δ)) (t : EvTree δ) : (EvTree.pending (scheduleAll reqs t)).Perm (EvTree.pending t ++ accepts reqs) := by
  induction reqs generalizing t with
  | nil => simp [scheduleAll, accepts]
  | cons x reqs ih =>
      refine (ih (csEvmScheduleEvent x.ev x.time t).1).trans ?_
      rcases csEvmScheduleEvent_pending t x.ev x.time with ⟨hno, hsame⟩ | ⟨hsome, -, hone⟩
      · have hrefused : accepts (x :: reqs) = accepts reqs := by simp [accepts, hno]
        rw [hsame, hrefused]
      · have haccepted : accepts (x :: reqs) = x :: accepts reqs := by
          simp [accepts, Option.isSome_iff_ne_none, hsome]
        rw [haccepted]
        exact (hone.append_right _).trans List.perm_middle.symm

/-- A request appends its event to the list of its time. -/
theorem chainAt_schedule (x : Due δ) : chainAt (csEvmScheduleEvent x.ev x.time t).1 time = chainAt t time ++ own time [x] := by
  unfold csEvmScheduleEvent
  split
  · rename_i hno
    simp [own, accepts, hno]
  · rename_i hsome
    have haccepted : accepts [x] = [x] := by simp [accepts, Option.isSome_iff_ne_none, hsome]
    rw [own, haccepted]
    by_cases htime : x.time = time
    · subst htime
      cases hfind : t.find? x.time with
      | none =>
          have hnew : (t.insert (newEvList x.ev x.time)).find? x.time = some (newEvList x.ev x.time) :=
            OrdTable.find?_insert_self hfind
          simp only [chainAt, hfind, hnew]
          simp [newEvList]
      | some l =>
          simp [chainAt, OrdTable.find?_modify, hfind, CsEventList.append]
    · have hother : (t.insert (newEvList x.ev x.time)).find? time = t.find? time :=
        OrdTable.find?_insert_of_ne (Ne.symm htime)
      cases hfind : t.find? x.time with
      | none => simp [chainAt, hother, htime]
      | some l => simp [chainAt, OrdTable.find?_modify, htime, Ne.symm htime]

theorem chainAt_scheduleAll : chainAt (scheduleAll reqs t) time = chainAt t time ++ own time reqs := by
  induction reqs generalizing t with
  | nil => simp [scheduleAll, own, accepts]
  | cons x reqs ih =>
      have hrest := ih (t := (csEvmScheduleEvent x.ev x.time t).1)
      rw [chainAt_schedule, List.append_assoc, ← own_append] at hrest
      exact hrest

/-- A tree is the list of a time, and what is left without it. -/
theorem pending_chainAt (t : EvTree δ) (time : Int) : (EvTree.pending t).Perm ((chainAt t time).map (⟨·, time⟩) ++ EvTree.pending (t.delete time)) := by
  refine (popEvents_pending t time).trans ?_
  have hdues : (popEvents t time).2.elim [] CsEventList.dues = (chainAt t time).map (⟨·, time⟩) := by
    unfold popEvents chainAt
    cases hfind : t.find? time with
    | none => rfl
    | some l =>
        show l.dues = _
        rw [CsEventList.dues, (OrdTable.find?_eq_some.1 hfind).2]
        rfl
  rw [hdues]
  exact .refl _

/-- A tree that is scheduled into, and then loses the list of a time. -/
theorem pending_delete_scheduleAll (h : own time reqs = []) :
    (EvTree.pending ((scheduleAll reqs t).delete time)).Perm (EvTree.pending (t.delete time) ++ accepts reqs) := by
  have hafter := pending_chainAt (scheduleAll reqs t) time
  rw [chainAt_scheduleAll, h, List.append_nil] at hafter
  have hbefore := (scheduleAll_pending reqs t).trans ((pending_chainAt t time).append_right _)
  rw [List.append_assoc] at hbefore
  exact (List.perm_append_left_iff _).1 (hafter.symm.trans hbefore)

end Requests

section Loop

variable {handlers : Handlers δ σ} {t₀ : EvTree δ} {u₀ : σ} {time : Int} {fuel cur : Nat} {s s' : Throwing δ σ}

/-- The loop has thrown the first `cur` events of the list as it is now. -/
structure Loop (handlers : Handlers δ σ) (t₀ : EvTree δ) (u₀ : σ) (time : Int) (cur : Nat) (s : Throwing δ σ) : Prop where
  thrown : s.thrown = (chainAt s.evTree time).take cur
  length : s.thrown.length = cur
  user : s.user = (Effect.run (raise handlers) s.thrown u₀).1
  evTree : s.evTree = scheduleAll (Effect.run (raise handlers) s.thrown u₀).2 t₀
  c : s.c = int32 cur

theorem Loop.start : Loop handlers t₀ u₀ time 0 { evTree := t₀, user := u₀, thrown := [], c := 0 } where
  thrown := rfl
  length := rfl
  user := rfl
  evTree := rfl
  c := rfl

/-- The list is what it was, and what the handlers have appended. -/
theorem Loop.chain (h : Loop handlers t₀ u₀ time cur s) : chainAt s.evTree time =
    chainAt t₀ time ++ own time (Effect.run (raise handlers) s.thrown u₀).2 := by
  rw [h.evTree, chainAt_scheduleAll]

theorem Loop.next (h : Loop handlers t₀ u₀ time cur s) {ev : CsEvent δ} {r : σ × List (Due δ)}
    (hev : (chainAt s.evTree time)[cur]? = some ev) (hr : csEvmThrowEvent handlers ev s.user = some r) :
    Loop handlers t₀ u₀ time (cur + 1)
      { evTree := scheduleAll r.2 s.evTree, user := r.1, thrown := s.thrown ++ [ev], c := int32 (s.c + 1) } := by
  have hraise : raise handlers ev (Effect.run (raise handlers) s.thrown u₀).1 = r := by
    rw [← h.user]
    exact raise_of_throw hr
  have hcur : cur + 1 ≤ (chainAt s.evTree time).length := (List.getElem?_eq_some_iff.1 hev).1
  refine ⟨?_, by simp [h.length], ?_, ?_, ?_⟩
  · show s.thrown ++ [ev] = (chainAt (scheduleAll r.2 s.evTree) time).take (cur + 1)
    rw [chainAt_scheduleAll, List.take_append_of_le_length hcur, List.take_add_one, ← h.thrown, hev]
    rfl
  · show r.1 = _
    rw [Effect.run_concat, hraise]
  · show scheduleAll r.2 s.evTree = _
    rw [Effect.run_concat, hraise, scheduleAll_append, ← h.evTree]
  · show int32 (s.c + 1) = _
    rw [h.c, int32_add_int32]
    push_cast
    rfl

/-- **Where the loop ends**, it has thrown all that is in the list then. -/
theorem throwLoop_ends (h : Loop handlers t₀ u₀ time cur s) (hs : throwLoop handlers time fuel cur s = some s') :
    Loop handlers t₀ u₀ time s'.thrown.length s' ∧ s'.thrown = chainAt s'.evTree time := by
  induction fuel generalizing cur s with
  | zero => cases hs
  | succ fuel ih =>
      rw [throwLoop] at hs
      cases hev : (chainAt s.evTree time)[cur]? with
      | none =>
          rw [hev] at hs
          cases hs
          refine ⟨h.length.symm ▸ h, ?_⟩
          rw [h.thrown, List.take_of_length_le (List.getElem?_eq_none_iff.1 hev)]
      | some ev =>
          rw [hev] at hs
          obtain ⟨r, hr, hrest⟩ := Option.bind_eq_some_iff.1 hs
          exact ih (h.next hev hr) hrest

/-- The loop ends, where the handlers of the list append nothing to it. -/
theorem throwLoop_returns (fuel : Nat) (htyped : ∀ ev ∈ chainAt t₀ time, ev.etype ≠ none)
    (hown : own time (Effect.run (raise handlers) (chainAt t₀ time) u₀).2 = [])
    (h : Loop handlers t₀ u₀ time cur s) (hcur : cur ≤ (chainAt t₀ time).length)
    (hfuel : (chainAt t₀ time).length < cur + fuel) :
    ∃ s', throwLoop handlers time fuel cur s = some s' ∧ s'.thrown = chainAt t₀ time := by
  induction fuel generalizing cur s with
  | zero => omega
  | succ fuel ih =>
      -- the events thrown are the first of the list that was there, and their handlers have appended nothing
      have hprefix : s.thrown = (chainAt t₀ time).take cur := by
        rw [h.thrown, h.chain, List.take_append_of_le_length hcur]
      have hchain : chainAt s.evTree time = chainAt t₀ time := by
        have hcut := Effect.run_append (f := raise handlers) ((chainAt t₀ time).take cur) ((chainAt t₀ time).drop cur) u₀
        rw [List.take_append_drop] at hcut
        rw [hcut, own_append, ← hprefix] at hown
        rw [h.chain, (List.append_eq_nil_iff.1 hown).1, List.append_nil]
      rw [throwLoop]
      cases hev : (chainAt s.evTree time)[cur]? with
      | none =>
          rw [hchain, List.getElem?_eq_none_iff] at hev
          exact ⟨s, rfl, hprefix.trans (List.take_of_length_le hev)⟩
      | some ev =>
          rw [hchain] at hev
          have hthrow := throw_of_typed handlers s.user (htyped ev (List.mem_of_getElem? hev))
          simp only [hthrow, Option.bind_some]
          refine ih (h.next (hchain ▸ hev) hthrow) ?_ (by omega)
          exact (List.getElem?_eq_some_iff.1 hev).1

end Loop

section Calls

variable {handlers : Handlers δ σ} {t : EvTree δ} {u : σ} {time : Int} {fuel : Nat} {r : Raised δ σ}

theorem chainAt_eq_nil : chainAt t time = [] ↔ t.find? time = none := by
  rw [chainAt]
  cases hfind : t.find? time with
  | none => simp
  | some l => simpa using l.chain_ne_nil

/-- What the synchronous call comes to, where it returns. -/
structure Throws (handlers : Handlers δ σ) (t : EvTree δ) (u : σ) (time : Int) (r : Raised δ σ) : Prop where
  thrown : r.thrown = chainAt t time ++ own time (Effect.run (raise handlers) r.thrown u).2
  ret : r.ret = int32 r.thrown.length
  evTree : r.evTree.items = ((scheduleAll (Effect.run (raise handlers) r.thrown u).2 t).delete time).items
  frees : r.frees = if t.find? time = none then 0 else 2

theorem throws_of_find?_eq_none (h : t.find? time = none) :
    Throws handlers t u time { evTree := t, user := u, thrown := [], ret := 0, frees := 0 } where
  thrown := by
    rw [chainAt_eq_nil.2 h]
    rfl
  ret := by
    show (0 : Int) = int32 0
    decide
  evTree := by
    show t.items = (t.delete time).items
    exact (OrdTable.delete_of_find?_eq_none h).symm
  frees := by
    rw [if_pos h]

theorem count_ne_zero (l : CsEventList δ) : l.count ≠ 0 := by
  have hpos := l.count_pos
  omega

/-- **The synchronous call**, where it returns, has thrown the list and all that its handlers have appended to it. -/
theorem throws_of_returns (h : csEvmThrowScheduledEvents handlers fuel time t u = some r) :
    Throws handlers t u time r := by
  unfold csEvmThrowScheduledEvents at h
  cases hfind : t.find? time with
  | none =>
      rw [hfind] at h
      cases h
      exact throws_of_find?_eq_none hfind
  | some l =>
      simp only [hfind, if_neg (count_ne_zero l)] at h
      obtain ⟨s, hs, rfl⟩ := Option.map_eq_some_iff.1 h
      obtain ⟨hloop, hall⟩ := throwLoop_ends .start hs
      have hchain := hloop.chain
      have hlist : s.evTree.find? time ≠ none := fun hnone => by
        rw [chainAt_eq_nil.2 hnone] at hchain
        have hnil := (List.append_eq_nil_iff.1 hchain.symm).1
        rw [chainAt_eq_nil, hfind] at hnil
        cases hnil
      obtain ⟨l', hfind'⟩ := Option.ne_none_iff_exists'.1 hlist
      refine ⟨?_, hloop.c, ?_, ?_⟩
      · exact hall.trans hchain
      · show (csEvmDeleteEvents s.evTree time).1.items = _
        rw [csEvmDeleteEvents, hfind', hloop.evTree]
      · show (csEvmDeleteEvents s.evTree time).2 = _
        rw [csEvmDeleteEvents, hfind', hfind]
        rfl

/-- The synchronous call returns, where the handlers of the list request nothing for its time. -/
theorem returns_of_own (htyped : ∀ ev ∈ chainAt t time, ev.etype ≠ none)
    (hown : own time (Effect.run (raise handlers) (chainAt t time) u).2 = []) :
    ∃ fuel r, csEvmThrowScheduledEvents handlers fuel time t u = some r ∧ r.thrown = chainAt t time := by
  unfold csEvmThrowScheduledEvents
  cases hfind : t.find? time with
  | none => exact ⟨0, _, rfl, (chainAt_eq_nil.2 hfind).symm⟩
  | some l =>
      obtain ⟨s, hs, hthrown⟩ := throwLoop_returns ((chainAt t time).length + 1) htyped hown .start
        (Nat.zero_le _) (by omega)
      simp only [if_neg (count_ne_zero l)]
      exact ⟨_, _, Option.map_eq_some_iff.2 ⟨s, hs, rfl⟩, hthrown⟩

end Calls

section Controller

/-- The walk of an event worker (`_ev_worker`): `c` events of its slice are thrown, `curEv` is the chain from the
next one on, and `handling` is what the handler that runs has still to request. -/
structure Walk (δ : Type) where
  data : EventWorkerData δ
  c : Nat
  curEv : List (CsEvent δ)
  handling : Option (List (Due δ))

def Walk.begin (d : EventWorkerData δ) : Walk δ := { data := d, c := 0, curEv := d.guard, handling := none }

/-- A tick of the controller, with the walks of its tasks. `thrown` and `requested` only record what is thrown and
requested. -/
structure Tick (W : Nat) (δ σ : Type) where
  evTree : EvTree δ
  user : σ
  walks : Fin W → Option (Walk δ)
  /-- a worker has come to a NULL item, or its assertion has failed -/
  failed : Bool
  thrown : List (CsEvent δ)
  requested : List (Due δ)

/-- The tasks that `_ev_controller` makes of what `pop_events` returns. -/
def tasksOf (W : Nat) : Option (CsEventList δ) → List (EventWorkerData δ)
  | none => []
  | some evList => if 0 < evList.count then sliceTasks evList W else []

/-- `_ev_controller` after `pop_events`. -/
def Tick.pop (t : EvTree δ) (time : Int) (user : σ) (W : Nat) : Tick W δ σ :=
  let (evTree, evList) := popEvents t time
  { evTree := evTree
    user := user
    walks := fun w => ((tasksOf W evList)[w.val]?).map Walk.begin
    failed := false
    thrown := []
    requested := [] }

/-- The next step of a worker: a request of the handler that it runs, the return of the handler, or
`cs_evm_throw_event` of the next event of its slice. -/
def Tick.step (handlers : Handlers δ σ) (s : Tick W δ σ) (w : Fin W) : Option (Tick W δ σ) :=
  match s.failed, s.walks w with
  | false, some r => match r.handling with
      | some (x :: reqs) => some { s with
          evTree := (csEvmScheduleEvent x.ev x.time s.evTree).1
          walks := Function.update s.walks w (some { r with handling := some reqs })
          requested := s.requested ++ [x] }
      | some [] => some { s with walks := Function.update s.walks w (some { r with handling := none }) }
      | none =>
          if (r.c : Int) < r.data.numEvents then
            match r.curEv with
            | [] => some { s with failed := true }
            | ev :: rest => match csEvmThrowEvent handlers ev s.user with
                | none => some { s with failed := true }
                | some (user, reqs) => some { s with
                    user := user
                    walks := Function.update s.walks w
                      (some { r with c := r.c + 1, curEv := rest, handling := some reqs })
                    thrown := s.thrown ++ [ev] }
          else none
  | _, _ => none

/-- The controller has waited for its tasks. -/
def Tick.Waited (s : Tick W δ σ) : Prop :=
  s.failed = false ∧ ∀ w r, s.walks w = some r → r.handling = none ∧ r.data.numEvents ≤ r.c

def tickSystem (handlers : Handlers δ σ) (s₀ : Tick W δ σ) : Lts.System (Tick W δ σ) (Fin W) :=
  .ofFn (· = s₀) (Tick.step handlers)

end Controller

section Walks

variable {handlers : Handlers δ σ} {s s' : Tick W δ σ} {w : Fin W}

/-- The events that a walk has still to throw. -/
def Walk.left (r : Walk δ) : List (CsEvent δ) := r.curEv.take (r.data.numEvents - r.c).toNat

theorem Walk.left_cons {r : Walk δ} {ev : CsEvent δ} {rest : List (CsEvent δ)} (hcur : r.curEv = ev :: rest)
    (hlt : (r.c : Int) < r.data.numEvents) (reqs : Option (List (Due δ))) :
    r.left = ev :: ({ r with c := r.c + 1, curEv := rest, handling := reqs } : Walk δ).left := by
  have hone : (r.data.numEvents - r.c).toNat = (r.data.numEvents - (r.c + 1 : Nat)).toNat + 1 := by omega
  rw [Walk.left, hcur, hone, List.take_succ_cons]
  rfl

/-- **One step** of a worker. -/
inductive Tick.Step (handlers : Handlers δ σ) (s : Tick W δ σ) (w : Fin W) : Tick W δ σ → Prop where
  | request {r : Walk δ} {x : Due δ} {reqs : List (Due δ)} (hr : s.walks w = some r)
      (hhandling : r.handling = some (x :: reqs)) : s.Step handlers w { s with
        evTree := (csEvmScheduleEvent x.ev x.time s.evTree).1
        walks := Function.update s.walks w (some { r with handling := some reqs })
        requested := s.requested ++ [x] }
  | handled {r : Walk δ} (hr : s.walks w = some r) (hhandling : r.handling = some []) :
      s.Step handlers w { s with walks := Function.update s.walks w (some { r with handling := none }) }
  | throw {r : Walk δ} {ev : CsEvent δ} {rest : List (CsEvent δ)} {user : σ} {reqs : List (Due δ)}
      (hr : s.walks w = some r) (hhandling : r.handling = none) (hlt : (r.c : Int) < r.data.numEvents)
      (hcur : r.curEv = ev :: rest) (hthrow : csEvmThrowEvent handlers ev s.user = some (user, reqs)) :
      s.Step handlers w { s with
        user := user
        walks := Function.update s.walks w (some { r with c := r.c + 1, curEv := rest, handling := some reqs })
        thrown := s.thrown ++ [ev] }
  | fail {r : Walk δ} (hr : s.walks w = some r) (hlt : (r.c : Int) < r.data.numEvents)
      (hcur : ∀ ev ∈ r.curEv.head?, csEvmThrowEvent handlers ev s.user = none) :
      s.Step handlers w { s with failed := true }

theorem Tick.step_cases (h : s.step handlers w = some s') : s.Step handlers w s' := by
  unfold Tick.step at h
  split at h
  · rename_i r _ hr
    split at h
    · rename_i x reqs hhandling
      cases h
      exact .request hr hhandling
    · rename_i hhandling
      cases h
      exact .handled hr hhandling
    · rename_i hhandling
      split at h
      · rename_i hlt
        split at h
        · rename_i hcur
          cases h
          exact .fail hr hlt (by simp [hcur])
        · rename_i ev rest hcur
          split at h
          · rename_i hthrow
            cases h
            exact .fail hr hlt (by simpa [hcur] using hthrow)
          · rename_i user reqs hthrow
            cases h
            exact .throw hr hhandling hlt hcur hthrow
      · cases h
  · cases h

/-- The events that a worker has still to throw. -/
def restOf (walks : Fin W → Option (Walk δ)) (w : Fin W) : List (CsEvent δ) := (walks w).elim [] Walk.left

/-- What the handler that a worker runs has still to request. -/
def todoOf (walks : Fin W → Option (Walk δ)) (w : Fin W) : List (Due δ) := (walks w).elim [] fun r => r.handling.getD []

/-- The tick as effects on threads. -/
def Tick.threads (s : Tick W δ σ) : Effect.Threads (Fin W) (CsEvent δ) σ (Due δ) where
  state := s.user
  done := s.thrown
  out := s.requested
  rest := restOf s.walks
  todo := todoOf s.walks

section Families

variable {walks : Fin W → Option (Walk δ)} {r : Walk δ}

theorem restOf_update : restOf (Function.update walks w (some r)) = Function.update (restOf walks) w r.left :=
  funext fun v => Function.apply_update (fun _ o => o.elim [] Walk.left) walks w (some r) v

theorem todoOf_update :
    todoOf (Function.update walks w (some r)) = Function.update (todoOf walks) w (r.handling.getD []) :=
  funext fun v => Function.apply_update (fun _ o => o.elim [] fun r => r.handling.getD []) walks w (some r) v

theorem restOf_same (r' : Walk δ) (hr : walks w = some r) (hleft : r'.left = r.left) :
    restOf (Function.update walks w (some r')) = restOf walks := by
  rw [restOf_update, hleft, Function.update_eq_self_iff, restOf, hr]
  rfl

theorem todoOf_same (r' : Walk δ) (hr : walks w = some r) (hhandling : r'.handling.getD [] = r.handling.getD []) :
    todoOf (Function.update walks w (some r')) = todoOf walks := by
  rw [todoOf_update, hhandling, Function.update_eq_self_iff, todoOf, hr]
  rfl

end Families

/-- **The workers of a tick are threads** that throw the events of their slices. -/
theorem tick_refines (handlers : Handlers δ σ) (s₀ : Tick W δ σ) :
    Lts.Refines (tickSystem handlers s₀) (Effect.Threads.system (raise handlers) s₀.threads) (fun _ _ => True)
      (fun _ _ => True) Tick.threads where
  init := by
    rintro _ rfl
    rfl
  step := fun s w s' _ _ hs => by
    cases Tick.step_cases hs with
    | @request r x reqs hr hhandling =>
        have htodo : s.threads.todo w = x :: reqs := by simp [Tick.threads, todoOf, hr, hhandling]
        refine Or.inr ⟨w, trivial, ?_⟩
        refine (Effect.Threads.step_put htodo).trans (congrArg some ?_)
        simp only [Tick.threads, restOf_same { r with handling := some reqs } hr rfl, todoOf_update]
        rfl
    | @handled r hr hhandling =>
        refine Or.inl ?_
        have htodo : todoOf (Function.update s.walks w (some { r with handling := none })) = todoOf s.walks :=
          todoOf_same _ hr (by rw [hhandling]; rfl)
        simp only [Tick.threads, restOf_same { r with handling := none } hr rfl, htodo]
    | @throw r ev rest user reqs hr hhandling hlt hcur hthrow =>
        have htodo : s.threads.todo w = [] := by simp [Tick.threads, todoOf, hr, hhandling]
        have hrest : s.threads.rest w =
            ev :: ({ r with c := r.c + 1, curEv := rest, handling := some reqs } : Walk δ).left := by
          show restOf s.walks w = _
          rw [restOf, hr]
          exact Walk.left_cons hcur hlt _
        refine Or.inr ⟨w, trivial, (Effect.Threads.step_begin htodo hrest).trans (congrArg some ?_)⟩
        have hraise : raise handlers ev s.threads.state = (user, reqs) := raise_of_throw hthrow
        simp only [hraise]
        simp only [Tick.threads, restOf_update, todoOf_update]
        rfl
    | fail hr hlt hcur => exact Or.inl rfl

/-- No walk is longer than its chain, and no event there is without a type; the tree `t` has taken the requests. -/
structure Tick.Sound (t : EvTree δ) (s : Tick W δ σ) : Prop where
  failed : s.failed = false
  inside : ∀ w r, s.walks w = some r → r.data.numEvents - r.c ≤ r.curEv.length
  typed : ∀ w r, s.walks w = some r → ∀ ev ∈ r.curEv, ev.etype ≠ none
  evTree : s.evTree = scheduleAll s.requested t

variable {t : EvTree δ}

/-- The walk of one worker goes on. -/
theorem Tick.Sound.walk (hi : s.Sound t) (r' : Walk δ) (hinside : r'.data.numEvents - r'.c ≤ r'.curEv.length)
    (htyped : ∀ ev ∈ r'.curEv, ev.etype ≠ none) (hfailed : s'.failed = s.failed)
    (hwalks : s'.walks = Function.update s.walks w (some r')) (htree : s'.evTree = scheduleAll s'.requested t) :
    s'.Sound t := by
  have hcases : ∀ v r, s'.walks v = some r → r = r' ∨ s.walks v = some r := fun v r hr => by
    rw [hwalks] at hr
    by_cases hv : v = w
    · subst hv
      rw [Function.update_self] at hr
      exact Or.inl (Option.some.inj hr).symm
    · rw [Function.update_of_ne hv] at hr
      exact Or.inr hr
  refine ⟨hfailed.trans hi.failed, fun v r hr => ?_, fun v r hr => ?_, htree⟩
  · rcases hcases v r hr with rfl | hold
    · exact hinside
    · exact hi.inside v r hold
  · rcases hcases v r hr with rfl | hold
    · exact htyped
    · exact hi.typed v r hold

theorem Tick.Sound.step (hi : s.Sound t) (hs : s.Step handlers w s') : s'.Sound t := by
  cases hs with
  | @request r x reqs hr hhandling =>
      refine hi.walk { r with handling := some reqs } (hi.inside w r hr) (hi.typed w r hr) rfl rfl ?_
      show (csEvmScheduleEvent x.ev x.time s.evTree).1 = scheduleAll (s.requested ++ [x]) t
      rw [scheduleAll_append, ← hi.evTree]
      rfl
  | @handled r hr hhandling =>
      exact hi.walk { r with handling := none } (hi.inside w r hr) (hi.typed w r hr) rfl rfl hi.evTree
  | @throw r ev rest user reqs hr hhandling hlt hcur hthrow =>
      have hinside := hi.inside w r hr
      rw [hcur, List.length_cons] at hinside
      refine hi.walk { r with c := r.c + 1, curEv := rest, handling := some reqs } ?_ (fun ev' hmem => ?_) rfl rfl
        hi.evTree
      · show r.data.numEvents - (r.c + 1 : Nat) ≤ rest.length
        omega
      · exact hi.typed w r hr ev' (hcur ▸ List.mem_cons_of_mem ev hmem)
  | @fail r hr hlt hcur =>
      exfalso
      have hinside := hi.inside w r hr
      cases hchain : r.curEv with
      | nil =>
          rw [hchain] at hinside
          simp at hinside
          omega
      | cons ev rest =>
          have hnone := hcur ev (by simp [hchain])
          rw [throw_of_typed handlers s.user (hi.typed w r hr ev (by simp [hchain]))] at hnone
          cases hnone

/-- The number of events that a worker has still to throw. -/
def restCount (o : Option (Walk δ)) : ℕ := o.elim 0 (·.left.length)

/-- The number of steps to the return of the handler that a worker runs. -/
def todoCount (o : Option (Walk δ)) : ℕ := o.elim 0 (·.handling.elim 0 (·.length + 1))

/-- The events that are left, and behind them the requests. -/
def Tick.rank (s : Tick W δ σ) : ℕ ×ₗ ℕ := toLex (tally restCount s.walks, tally todoCount s.walks)

theorem Tick.rank_lt_of_handler {r : Walk δ} (r' : Walk δ) (hr : s.walks w = some r)
    (hwalks : s'.walks = Function.update s.walks w (some r')) (hleft : r'.left = r.left)
    (hless : todoCount (some r') < todoCount (some r)) : s'.rank < s.rank := by
  have hrest := tally_update restCount s.walks w (some r')
  have htodo := tally_update todoCount s.walks w (some r')
  rw [← hwalks, hr] at hrest htodo
  have hcount : restCount (some r') = restCount (some r) := congrArg List.length hleft
  refine Prod.Lex.toLex_lt_toLex.2 (Or.inr ⟨?_, ?_⟩)
  · show tally restCount s'.walks = tally restCount s.walks
    omega
  · show tally todoCount s'.walks < tally todoCount s.walks
    omega

/-- **Each step** comes nearer to the end of the tick. -/
theorem Tick.Step.rank_lt (hi : s.Sound t) (hs : s.Step handlers w s') : s'.rank < s.rank := by
  cases hs with
  | @request r x reqs hr hhandling =>
      refine Tick.rank_lt_of_handler { r with handling := some reqs } hr rfl rfl ?_
      simp [todoCount, hhandling]
  | @handled r hr hhandling =>
      refine Tick.rank_lt_of_handler { r with handling := none } hr rfl rfl ?_
      simp [todoCount, hhandling]
  | @throw r ev rest user reqs hr hhandling hlt hcur hthrow =>
      have hrest := tally_update restCount s.walks w (some { r with c := r.c + 1, curEv := rest, handling := some reqs })
      have hcount := congrArg List.length (Walk.left_cons hcur hlt (some reqs))
      simp only [hr, restCount, Option.elim_some, hcount, List.length_cons] at hrest
      refine Prod.Lex.toLex_lt_toLex.2 (Or.inl ?_)
      show tally restCount (Function.update s.walks w (some { r with c := r.c + 1, curEv := rest, handling := some reqs })) <
        tally restCount s.walks
      omega
  | @fail r hr hlt hcur => exact absurd (hi.step (.fail hr hlt hcur)).failed (by simp)

/-- As long as the controller waits, a worker can go on. -/
theorem Tick.Sound.progress (handlers : Handlers δ σ) (hi : s.Sound t) (hw : ¬ s.Waited) : ∃ w s', s.step handlers w = some s' := by
  have hbusy : ∃ w r, s.walks w = some r ∧ ¬ (r.handling = none ∧ r.data.numEvents ≤ r.c) := by
    by_contra hno
    refine hw ⟨hi.failed, fun w r hr => ?_⟩
    by_contra hne
    exact hno ⟨w, r, hr, hne⟩
  obtain ⟨w, r, hr, hne⟩ := hbusy
  refine ⟨w, ?_⟩
  simp only [Tick.step, hi.failed, hr]
  cases hhandling : r.handling with
  | some reqs => cases reqs <;> exact ⟨_, rfl⟩
  | none =>
      have hlt : (r.c : Int) < r.data.numEvents := by
        by_contra hle
        exact hne ⟨hhandling, by omega⟩
      simp only [if_pos hlt]
      cases hcur : r.curEv with
      | nil => exact ⟨_, rfl⟩
      | cons ev rest =>
          have hev : ev.etype ≠ none := hi.typed w r hr ev (by simp [hcur])
          simp only [throw_of_typed handlers s.user hev]
          exact ⟨_, rfl⟩

/-- **The controller waits in vain in no run**: each leads to one in which its tasks are done. -/
theorem Tick.Sound.completes (handlers : Handlers δ σ) (s₀ : Tick W δ σ) (hi : s.Sound t) :
    ∃ s', Lts.Run (tickSystem handlers s₀) (fun _ _ => True) s s' ∧ s'.Sound t ∧ s'.Waited := by
  refine Lts.Run.descend (I := Tick.Sound t) (P := Tick.Waited) (m := Tick.rank) (fun s hi hw => ?_) hi
  obtain ⟨w, s', hs⟩ := hi.progress handlers hw
  exact ⟨w, s', trivial, hs, hi.step (Tick.step_cases hs), (Tick.step_cases hs).rank_lt hi⟩

end Walks

section Ticks

variable {handlers : Handlers δ σ} {t : EvTree δ} {time : Int} {user : σ} {s : Tick W δ σ}

theorem tasksOf_length (evList : Option (CsEventList δ)) : (tasksOf W evList).length ≤ W := by
  cases evList with
  | none => simp [tasksOf]
  | some l =>
      rw [tasksOf, if_pos l.count_pos]
      simp [sliceTasks]

/-- Together the tasks have the events of the time. -/
theorem tasksOf_left (hW : 0 < W) :
    (tasksOf W (t.find? time)).flatMap (fun d => (Walk.begin d).left) = chainAt t time := by
  rw [chainAt]
  cases t.find? time with
  | none => rfl
  | some l =>
      have hall : (sliceTasks l W).flatMap EventWorkerData.dues = l.dues := sliceTasks_dues hW
      have hdues := congrArg (List.map Due.ev) hall
      rw [List.map_flatMap] at hdues
      simp only [EventWorkerData.dues, CsEventList.dues, List.map_map] at hdues
      rw [tasksOf, if_pos l.count_pos]
      simpa [Walk.left, Walk.begin, Function.comp_def] using hdues

/-- The walks of a tick begin inside the list of its time. -/
theorem pop_walk (hW : 0 < W) {w : Fin W} {r : Walk δ} (hr : (Tick.pop t time user W).walks w = some r) :
    r.handling = none ∧ r.data.numEvents - r.c ≤ r.curEv.length ∧ ∀ ev ∈ r.curEv, ev ∈ chainAt t time := by
  obtain ⟨d, hd, rfl⟩ := Option.map_eq_some_iff.1 hr
  have hmem : d ∈ tasksOf W (t.find? time) := List.mem_of_getElem? hd
  rw [chainAt]
  cases hfind : t.find? time with
  | none =>
      rw [hfind] at hmem
      cases hmem
  | some l =>
      rw [hfind, tasksOf, if_pos l.count_pos] at hmem
      obtain ⟨-, -, -, hinside⟩ := sliceTasks_spec hW hmem
      refine ⟨rfl, by simpa [Walk.begin] using hinside, fun ev hev => ?_⟩
      rw [sliceTasks_eq hW rfl rfl] at hmem
      obtain ⟨c, -, rfl⟩ := List.mem_map.1 hmem
      exact List.mem_of_mem_drop hev

theorem pop_sound (hW : 0 < W) (htyped : ∀ ev ∈ chainAt t time, ev.etype ≠ none) :
    (Tick.pop t time user W).Sound (t.delete time) where
  failed := rfl
  inside := fun _ _ hr => (pop_walk hW hr).2.1
  typed := fun _ _ hr ev hev => htyped ev ((pop_walk hW hr).2.2 ev hev)
  evTree := rfl

theorem reachable_sound (hW : 0 < W) (htyped : ∀ ev ∈ chainAt t time, ev.etype ≠ none)
    (h : Lts.Reachable (tickSystem handlers (Tick.pop t time user W)) s) : s.Sound (t.delete time) := by
  refine h.invariant (I := Tick.Sound (t.delete time)) ?_ fun _ _ _ hi _ hs => hi.step (Tick.step_cases hs)
  rintro _ rfl
  exact pop_sound hW htyped

theorem pop_threads : (Tick.pop t time user W).threads =
    .start (fun w => ((tasksOf W (t.find? time))[w.val]?).elim [] fun d => (Walk.begin d).left) user := by
  have hrest : restOf (Tick.pop t time user W).walks =
      fun w => ((tasksOf W (t.find? time))[w.val]?).elim [] fun d => (Walk.begin d).left := by
    funext w
    exact Option.elim_map ..
  have htodo : todoOf (Tick.pop t time user W).walks = fun _ => [] := by
    funext w
    rw [todoOf]
    cases hr : (Tick.pop t time user W).walks w with
    | none => rfl
    | some r =>
        obtain ⟨d, -, rfl⟩ := Option.map_eq_some_iff.1 hr
        rfl
  rw [Tick.threads, hrest, htodo]
  rfl

/-- **The tick of the controller**, where it has waited for its tasks: they have thrown the events that it popped, and
their requests are in the tree. -/
theorem waited_spec (hW : 0 < W) (hcomm : ∀ a b, Effect.Commutes (raise handlers) a b)
    (htyped : ∀ ev ∈ chainAt t time, ev.etype ≠ none)
    (h : Lts.Reachable (tickSystem handlers (Tick.pop t time user W)) s) (hw : s.Waited) :
    s.thrown.Perm (chainAt t time) ∧ (EvTree.pending s.evTree).Perm
      (EvTree.pending (t.delete time) ++ accepts (Effect.run (raise handlers) (chainAt t time) user).2) := by
  have hthreads := (tick_refines handlers (Tick.pop t time user W)).reachable h
  rw [pop_threads] at hthreads
  have hplaces := flatMap_finRange_getElem? (tasksOf_length (W := W) (t.find? time)) fun d => (Walk.begin d).left
  rw [tasksOf_left hW] at hplaces
  have hend : s.threads.Ended := fun w => by
    show restOf s.walks w = [] ∧ todoOf s.walks w = []
    rw [restOf, todoOf]
    cases hr : s.walks w with
    | none => exact ⟨rfl, rfl⟩
    | some r =>
        obtain ⟨hhandling, hle⟩ := hw.2 w r hr
        refine ⟨?_, by simp [hhandling]⟩
        show r.curEv.take _ = []
        rw [Int.toNat_of_nonpos (by omega), List.take_zero]
  obtain ⟨hdone, -, hout⟩ := Effect.Threads.ended_run (List.nodup_finRange W) List.mem_finRange _
    (fun a _ b _ => hcomm a b) hthreads hend
  rw [hplaces] at hdone hout
  refine ⟨hdone, ?_⟩
  rw [(reachable_sound hW htyped h).evTree]
  exact (scheduleAll_pending _ _).trans ((hout.filter _).append_left _)

end Ticks

/-- The synchronous call has left and returned `r`, and a tick of the controller agrees with it. -/
structure Agree (handlers : Handlers δ σ) (W : Nat) (t : EvTree δ) (time : Int) (user : σ) (r : Raised δ σ) : Prop where
  ret : r.ret = r.thrown.length
  /-- the controller does not wait in vain -/
  completes : ∀ s, Lts.Reachable (tickSystem handlers (Tick.pop t time user W)) s →
    ∃ s', Lts.Run (tickSystem handlers (Tick.pop t time user W)) (fun _ _ => True) s s' ∧ s'.Waited
  thrown : ∀ s, Lts.Reachable (tickSystem handlers (Tick.pop t time user W)) s → s.Waited → s.thrown.Perm r.thrown
  pending : ∀ s, Lts.Reachable (tickSystem handlers (Tick.pop t time user W)) s → s.Waited →
    (EvTree.pending s.evTree).Perm (EvTree.pending r.evTree)

theorem int32_natCast_iff {n : Nat} : int32 n = n ↔ n < 2 ^ 31 := by
  constructor
  · intro h
    have hlt : int32 n < 2 ^ 31 := Int.bmod_lt (by decide)
    omega
  · exact fun h => int32_of_lt (by omega) (by omega)

section Agreement

variable {handlers : Handlers δ σ} {t : EvTree δ} {time : Int} {user : σ} {r : Raised δ σ}

/-- The synchronous call agrees with the controller, where it has thrown no more than the controller pops. -/
theorem agree_of_own (hW : 0 < W) (hcomm : ∀ a b, Effect.Commutes (raise handlers) a b)
    (htyped : ∀ ev ∈ chainAt t time, ev.etype ≠ none) (hr : Throws handlers t user time r)
    (hthrown : r.thrown = chainAt t time) (hfit : (chainAt t time).length < 2 ^ 31)
    (hown : own time (Effect.run (raise handlers) (chainAt t time) user).2 = []) : Agree handlers W t time user r where
  ret := by
    rw [hr.ret, hthrown]
    exact int32_natCast_iff.2 hfit
  completes := fun s hs => by
    obtain ⟨s', hrun, -, hw⟩ := (reachable_sound hW htyped hs).completes handlers (Tick.pop t time user W)
    exact ⟨s', hrun, hw⟩
  thrown := fun s hs hw => by
    rw [hthrown]
    exact (waited_spec hW hcomm htyped hs hw).1
  pending := fun s hs hw => by
    have hleft : EvTree.pending r.evTree =
        EvTree.pending ((scheduleAll (Effect.run (raise handlers) (chainAt t time) user).2 t).delete time) := by
      rw [EvTree.pending, hr.evTree, hthrown]
      rfl
    rw [hleft]
    exact (waited_spec hW hcomm htyped hs hw).2.trans (pending_delete_scheduleAll hown).symm

/-- Where it has thrown as many events as the controller, the handlers have requested none for the time. -/
theorem own_of_agree (hW : 0 < W) (hcomm : ∀ a b, Effect.Commutes (raise handlers) a b)
    (htyped : ∀ ev ∈ chainAt t time, ev.etype ≠ none) (hr : Throws handlers t user time r)
    (h : Agree handlers W t time user r) :
    (chainAt t time).length < 2 ^ 31 ∧ own time (Effect.run (raise handlers) (chainAt t time) user).2 = [] := by
  have hsound : (Tick.pop t time user W).Sound (t.delete time) := pop_sound hW htyped
  obtain ⟨s, hrun, -, hw⟩ := hsound.completes handlers (Tick.pop t time user W)
  have hs : Lts.Reachable (tickSystem handlers (Tick.pop t time user W)) s := ⟨_, rfl, hrun⟩
  have hsame : r.thrown.length = (chainAt t time).length :=
    ((h.thrown s hs hw).symm.trans (waited_spec hW hcomm htyped hs hw).1).length_eq
  have hlength := congrArg List.length hr.thrown
  rw [List.length_append, hsame] at hlength
  have hown : own time (Effect.run (raise handlers) r.thrown user).2 = [] := List.length_eq_zero_iff.1 (by omega)
  have hthrown : r.thrown = chainAt t time := by
    have hall := hr.thrown
    rwa [hown, List.append_nil] at hall
  refine ⟨?_, hthrown ▸ hown⟩
  rw [← hthrown]
  exact int32_natCast_iff.1 (hr.ret.symm.trans h.ret)

end Agreement

/-- **The two ways of raising a tick agree** exactly if no handler of the tick requests an event for the tick that it
is in, and the number of events fits into an `int`. The record of the list is freed once only where there is none. -/
theorem raisings_agree_iff (handlers : Handlers δ σ) (hcomm : ∀ a b, Effect.Commutes (raise handlers) a b)
    (t : EvTree δ) (htyped : ∀ x ∈ EvTree.pending t, x.ev.etype ≠ none) (time : Int) (user : σ) (hW : 0 < W) :
    ((∃ fuel r, csEvmThrowScheduledEvents handlers fuel time t user = some r ∧ Agree handlers W t time user r) ↔
      (chainAt t time).length < 2 ^ 31 ∧
        ∀ x ∈ accepts (Effect.run (raise handlers) (chainAt t time) user).2, x.time ≠ time) ∧
    ((∃ fuel r, csEvmThrowScheduledEvents handlers fuel time t user = some r ∧ r.frees ≤ 1 ∧
        Agree handlers W t time user r) ↔ t.find? time = none) := by
  have hlist : ∀ ev ∈ chainAt t time, ev.etype ≠ none := fun ev hev =>
    htyped ⟨ev, time⟩ ((pending_chainAt t time).mem_iff.2 (List.mem_append_left _ (List.mem_map_of_mem hev)))
  have hiff : (∃ fuel r, csEvmThrowScheduledEvents handlers fuel time t user = some r ∧ Agree handlers W t time user r) ↔
      (chainAt t time).length < 2 ^ 31 ∧
        ∀ x ∈ accepts (Effect.run (raise handlers) (chainAt t time) user).2, x.time ≠ time := by
    rw [← own_eq_nil]
    constructor
    · rintro ⟨fuel, r, hr, hagree⟩
      exact own_of_agree hW hcomm hlist (throws_of_returns hr) hagree
    · rintro ⟨hfit, hown⟩
      obtain ⟨fuel, r, hr, hthrown⟩ := returns_of_own hlist hown
      exact ⟨fuel, r, hr, agree_of_own hW hcomm hlist (throws_of_returns hr) hthrown hfit hown⟩
  refine ⟨hiff, ?_, fun hnone => ?_⟩
  · rintro ⟨fuel, r, hr, hfrees, -⟩
    by_contra hsome
    rw [(throws_of_returns hr).frees, if_neg hsome] at hfrees
    omega
  · have hnil := chainAt_eq_nil.2 hnone
    obtain ⟨fuel, r, hr, hagree⟩ := hiff.2 (by simp [hnil, accepts])
    refine ⟨fuel, r, hr, ?_, hagree⟩
    rw [(throws_of_returns hr).frees, if_pos hnone]
    exact Nat.zero_le 1

/-- Every handler counts its event and schedules it for tick 2. -/
def later : Handlers Nat Nat := fun _ => some fun ev n => (n + 1, [⟨ev, 2⟩])

theorem later_commutes (a b : CsEvent Nat) : Effect.Commutes (raise later) a b := by
  intro n
  have hraise : ∀ (ev : CsEvent Nat) k, raise later ev k = if ev.etype = none then (k, []) else (k + 1, [⟨ev, 2⟩]) :=
    fun ev k => by cases hev : ev.etype <;> simp [raise, csEvmThrowEvent, later, hev]
  simp only [hraise]
  by_cases ha : a.etype = none <;> by_cases hb : b.etype = none <;> simp [ha, hb]
  exact .swap _ _ _

/-- Two events of tick 1, and two workers. -/
theorem raisings_agree_two : ∃ t : EvTree Nat, (chainAt t 1).length = 2 ∧
    ∃ fuel r, csEvmThrowScheduledEvents later fuel 1 t 0 = some r ∧ Agree later 2 t 1 0 r :=
  ⟨scheduleAll [⟨⟨some "tick", 0⟩, 1⟩, ⟨⟨some "tick", 1⟩, 1⟩] .empty, by decide,
    (raisings_agree_iff later later_commutes (scheduleAll [⟨⟨some "tick", 0⟩, 1⟩, ⟨⟨some "tick", 1⟩, 1⟩] .empty)
      (by decide) 1 0 Nat.two_pos).1.2 ⟨by decide, by decide⟩⟩

/-- The first handler that runs schedules an event for tick 1. -/
def onceMore : Handlers Nat Nat := fun _ => some fun _ n => (n + 1, if n = 0 then [⟨⟨some "tick", 1⟩, 1⟩] else [])

theorem onceMore_commutes (a b : CsEvent Nat) : Effect.Commutes (raise onceMore) a b := by
  intro n
  have hraise : ∀ (ev : CsEvent Nat) k, raise onceMore ev k =
      if ev.etype = none then (k, []) else (k + 1, if k = 0 then [⟨⟨some "tick", 1⟩, 1⟩] else []) :=
    fun ev k => by cases hev : ev.etype <;> simp [raise, csEvmThrowEvent, onceMore, hev]
  simp only [hraise]
  by_cases ha : a.etype = none <;> by_cases hb : b.etype = none <;> simp [ha, hb]

instance (s : Tick W δ σ) : Decidable s.Waited :=
  inferInstanceAs (Decidable (s.failed = false ∧ ∀ w, ∀ r ∈ s.walks w, r.handling = none ∧ r.data.numEvents ≤ r.c))

/-- An event for the tick that is raised: the synchronous call throws it with the others, and no event is left; the
controller throws the others, and it stays in the tree. -/
theorem raisings_differ : (∀ a b, Effect.Commutes (raise onceMore) a b) ∧
    ∃ t : EvTree Nat, EvTree.pending t = [⟨⟨some "tick", 0⟩, 1⟩] ∧
      (∃ fuel r, csEvmThrowScheduledEvents onceMore fuel 1 t 0 = some r ∧ r.thrown.length = 2 ∧
        EvTree.pending r.evTree = []) ∧
      (∃ s, Lts.Reachable (tickSystem onceMore (Tick.pop t 1 0 1)) s ∧ s.Waited ∧ s.thrown.length = 1 ∧
        EvTree.pending s.evTree = [⟨⟨some "tick", 1⟩, 1⟩]) ∧
      ∀ fuel r, csEvmThrowScheduledEvents onceMore fuel 1 t 0 = some r → ¬ Agree onceMore 1 t 1 0 r := by
  refine ⟨onceMore_commutes, scheduleAll [⟨⟨some "tick", 0⟩, 1⟩] .empty, by decide, ?_, ?_, fun fuel r hr hagree => ?_⟩
  · have hany : (csEvmThrowScheduledEvents onceMore 3 1 (scheduleAll [⟨⟨some "tick", 0⟩, 1⟩] .empty) 0).any
        (fun r => decide (r.thrown.length = 2 ∧ EvTree.pending r.evTree = [])) = true := by decide +kernel
    obtain ⟨r, hr, hp⟩ := (Option.any_eq_true _ _).1 hany
    exact ⟨3, r, hr, of_decide_eq_true hp⟩
  · obtain ⟨s, hs, hp⟩ := Lts.exec_of_any (f := Tick.step onceMore)
      (s := Tick.pop (scheduleAll [⟨⟨some "tick", 0⟩, 1⟩] .empty) 1 0 1) (l := List.replicate 3 ⟨0, Nat.one_pos⟩)
      (p := fun s => decide (s.Waited ∧ s.thrown.length = 1 ∧ EvTree.pending s.evTree = [⟨⟨some "tick", 1⟩, 1⟩]))
      (by decide +kernel)
    exact ⟨s, Lts.exec_reachable rfl hs, of_decide_eq_true hp⟩
  · have hnone := (own_of_agree Nat.one_pos onceMore_commutes (by decide) (throws_of_returns hr) hagree).2
    revert hnone
    decide

end ComplexSim.Raising
