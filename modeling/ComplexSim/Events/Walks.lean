import ComplexSim.Events.Slice

/-!
# The walks of the event workers (`_ev_worker` in `src/cs_events.c`)

A task walks the chain from its guard, as many items as it is told to, and does not look for the end: on a
NULL item it exits from the program. As in the slices, a pointer to an item is the rest of the chain from
there on, so that two items are different pointers even where their events are the same.
-/

namespace ComplexSim.Events

variable {α δ : Type}

/-- The loop of `_ev_worker` from `cur_ev`: the items whose events it throws. It is `none` where `cur_ev` is NULL
before the last event. -/
def evLoop : Nat → List α → Option (List (List α))
  | 0, _ => some []
  | _ + 1, [] => none
  | n + 1, ev :: enext => (evLoop n enext).map ((ev :: enext) :: ·)

/-- `_ev_worker`, where `guards` is the array of the list. -/
def evWorker (guards : List (List (CsEvent δ))) (myargs : EventWorkerData δ) : Option (List (List (CsEvent δ))) :=
  (guards[myargs.guardIndex]?).bind (evLoop myargs.numEvents.toNat)

/-- The items of a chain. -/
def itemsOf : List α → List (List α)
  | [] => []
  | ev :: enext => (ev :: enext) :: itemsOf enext

section Items

variable {l : List α}

@[simp] theorem itemsOf_length : (itemsOf l).length = l.length := by
  induction l with
  | nil => rfl
  | cons x l ih => simp [itemsOf, ih]

/-- An item is a pointer into the chain that is not NULL. -/
theorem mem_itemsOf {p : List α} : p ∈ itemsOf l ↔ p ≠ [] ∧ p <:+ l := by
  induction l with
  | nil =>
      simp only [itemsOf, List.not_mem_nil, List.suffix_nil, false_iff, not_and]
      exact id
  | cons x l ih =>
      rw [itemsOf, List.mem_cons, ih, List.suffix_cons_iff]
      constructor
      · rintro (rfl | ⟨hne, hsuffix⟩)
        · exact ⟨List.cons_ne_nil x l, Or.inl rfl⟩
        · exact ⟨hne, Or.inr hsuffix⟩
      · rintro ⟨hne, rfl | hsuffix⟩
        · exact Or.inl rfl
        · exact Or.inr ⟨hne, hsuffix⟩

theorem itemsOf_nodup : (itemsOf l).Nodup := by
  induction l with
  | nil => exact List.nodup_nil
  | cons x l ih =>
      refine List.nodup_cons.2 ⟨fun hmem => ?_, ih⟩
      have hlen := (mem_itemsOf.1 hmem).2.length_le
      simp at hlen

theorem itemsOf_drop (k : Nat) : itemsOf (l.drop k) = (itemsOf l).drop k := by
  induction l generalizing k with
  | nil => simp [itemsOf]
  | cons x l ih =>
      cases k with
      | zero => rfl
      | succ k => exact ih k

/-- A walk that the chain is long enough for visits its first items. -/
theorem evLoop_eq {n : Nat} (h : n ≤ l.length) : evLoop n l = some ((itemsOf l).take n) := by
  induction n generalizing l with
  | zero => rfl
  | succ n ih =>
      cases l with
      | nil => simp at h
      | cons x l =>
          rw [evLoop, ih (Nat.le_of_succ_le_succ h)]
          rfl

end Items

/-- Steps that all succeed give the list of their results. -/
theorem mapM_eq_map {β : Type} {f : α → Option β} {g : α → β} {l : List α} (h : ∀ x ∈ l, f x = some (g x)) :
    l.mapM f = some (l.map g) := by
  induction l with
  | nil => rfl
  | cons x l ih =>
      obtain ⟨hx, hl⟩ := List.forall_mem_cons.1 h
      rw [List.mapM_cons, hx, ih hl]
      rfl

section Tasks

variable {evList : CsEventList δ} {ntasks : Nat}

theorem guardsFrom_length (hops n : Nat) (ptr : List α) : (guardsFrom hops n ptr).length = n := by
  induction n generalizing ptr with
  | zero => rfl
  | succ n ih => simp [guardsFrom, ih]

/-- The guard that a task reads is the one of its argument. -/
theorem guards_getElem? (hpos : 0 < ntasks) {d : EventWorkerData δ} (hd : d ∈ sliceTasks evList ntasks) :
    (csEvUpdateGuards evList ntasks).1[d.guardIndex]? = some d.guard := by
  have hlt := (sliceTasks_spec hpos hd).1
  obtain ⟨c, -, rfl⟩ := List.mem_map.1 hd
  have hlen : c < (csEvUpdateGuards evList ntasks).1.length := by
    rw [csEvUpdateGuards, guardsFrom_length]
    exact hlt
  show (csEvUpdateGuards evList ntasks).1[c]? = some ((csEvUpdateGuards evList ntasks).1.getD c [])
  rw [List.getD_eq_getElem?_getD, List.getElem?_eq_getElem hlen]
  rfl

/-- The walk of a task. -/
theorem evWorker_eq (hpos : 0 < ntasks) {d : EventWorkerData δ} (hd : d ∈ sliceTasks evList ntasks) :
    evWorker (csEvUpdateGuards evList ntasks).1 d = some ((itemsOf d.guard).take d.numEvents.toNat) := by
  obtain ⟨-, -, hnonneg, hle⟩ := sliceTasks_spec hpos hd
  rw [evWorker, guards_getElem? hpos hd]
  exact evLoop_eq (by omega)

end Tasks

/-- **The walks of the tasks visit every item of the list once**: there are as many tasks as workers or items,
the guard index of each is that of a worker, no walk comes to a NULL item, and what the walks visit are the
items of the chain, in order. -/
theorem walks_visit (evList : CsEventList δ) (nworkers : Nat) (h : 0 < nworkers) :
    (sliceTasks evList nworkers).length = min nworkers evList.chain.length ∧
    (∀ d ∈ sliceTasks evList nworkers, d.guardIndex < nworkers) ∧
    ∃ visited : List (List (List (CsEvent δ))),
      (sliceTasks evList nworkers).mapM (evWorker (csEvUpdateGuards evList nworkers).1) = some visited ∧
      visited.flatten = itemsOf evList.chain ∧ visited.flatten.Nodup := by
  refine ⟨?_, fun d hd => (sliceTasks_spec h hd).1, ?_⟩
  · simp [sliceTasks, evList.count_eq]
  · refine ⟨_, mapM_eq_map fun d hd => evWorker_eq h hd, ?_⟩
    · have hflatten : ((sliceTasks evList nworkers).map fun d => (itemsOf d.guard).take d.numEvents.toNat).flatten =
          itemsOf evList.chain := by
        rw [← List.flatMap_def, sliceTasks_eq h rfl rfl, List.flatMap_map]
        simp only [itemsOf_drop]
        have hslices := flatMap_slices h (itemsOf evList.chain)
        rw [itemsOf_length] at hslices
        exact hslices
      exact ⟨hflatten, hflatten ▸ itemsOf_nodup⟩

/-- Five events, two of them alike, and three workers. -/
theorem walks_visit_five : ∃ evList : CsEventList Nat, evList.count = 5 ∧
    (sliceTasks evList 3).map (fun d => (d.guardIndex, d.numEvents)) = [(0, 1), (1, 1), (2, 3)] ∧
    ∃ visited, (sliceTasks evList 3).mapM (evWorker (csEvUpdateGuards evList 3).1) = some visited ∧
      visited.flatten = itemsOf evList.chain :=
  ⟨⟨0, [⟨none, 1⟩, ⟨none, 1⟩, ⟨none, 2⟩, ⟨none, 3⟩, ⟨none, 4⟩], 5, rfl, by decide⟩, rfl, by decide, by
    obtain ⟨-, -, visited, hwalks, hall, -⟩ :=
      walks_visit ⟨0, [⟨none, 1⟩, ⟨none, 1⟩, ⟨none, 2⟩, ⟨none, 3⟩, ⟨none, 4⟩], 5, rfl, by decide⟩ 3 (by decide)
    exact ⟨visited, hwalks, hall⟩⟩

end ComplexSim.Events
