import ComplexSim.Events.Timeline
import ComplexSim.Lib.Linked
import ComplexSim.Lib.Mealy

/-!
# The event tree in memory

The event lists as the code links them: a list has pointers to its first and its last item,
an item one to the next. Operations come one after the other, each under the lock of the
tree. `calloc` succeeds and gives an address that no item has; nothing is freed. The `int` that
counts the items of a list is unbounded. The tree itself is an ordered map from `scheduled_at` to
list records.
-/

namespace ComplexSim.EventMemory

open Events

/-- The address of an item; `none` is NULL. -/
abbrev Addr := Nat

variable {δ : Type}

/-- `cs_event_list_item_t`. -/
structure CsEventListItem (δ : Type) where
  ev : CsEvent δ
  enext : Option Addr

/-- `cs_event_list_t` without its guards. -/
structure ListRecord where
  head : Option Addr
  tail : Option Addr
  scheduledAt : Int
  count : Int

/-- The items that memory has. -/
abbrev Items (δ : Type) := Addr → Option (CsEventListItem δ)

/-- An event manager, as far as events are concerned. -/
structure State (δ : Type) where
  items : Items δ
  /-- `calloc` has not given this address or a later one -/
  brk : Addr
  evTree : OrdTable ListRecord.scheduledAt

inductive Op (δ : Type) where
  | schedule (ev : CsEvent δ) (time : Int)
  | getEvents (time : Int)
  | popEvents (time : Int)
  | findNearest
  | findFarthest

/-- What an operation returns; a pointer to a list is read in the memory that is there. -/
inductive Answer (δ : Type) where
  | ret (r : Int)
  | list (items : Items δ) (found : Option ListRecord)
  | time (t : Int)
  /-- a null pointer is followed -/
  | fault

def init (δ : Type) : State δ where
  items := fun _ => none
  brk := 0
  evTree := .empty

/-- `new_ev_list`. -/
def newEvList (time : Int) : ListRecord where
  head := none
  tail := none
  scheduledAt := time
  count := 0

/-- `new_ev_list_item`, at the address `brk`. -/
def newEvListItem (s : State δ) (ev : CsEvent δ) : State δ :=
  { s with items := Function.update s.items s.brk (some ⟨ev, none⟩), brk := s.brk + 1 }

/-- `p->enext = a`. -/
def Items.setEnext (items : Items δ) (p a : Addr) : Items δ :=
  Function.update items p ((items p).map fun item => { item with enext := some a })

/-- `tail` and `count` of a list that gets one more item. -/
def ListRecord.grow (a : Addr) (l : ListRecord) : ListRecord :=
  { l with tail := some a, count := l.count + 1 }

theorem ListRecord.grow_scheduledAt (a : Addr) (l : ListRecord) :
    (l.grow a).scheduledAt = l.scheduledAt := rfl

/-- `cs_evm_schedule_event`. -/
def csEvmScheduleEvent (s : State δ) (ev : CsEvent δ) (time : Int) : State δ × Answer δ :=
  if ev.etype = none then (s, .ret (-1))
  else
    let newItem := s.brk
    let s := newEvListItem s ev
    match s.evTree.find? time with
    | none =>
        let found := { newEvList time with head := some newItem, tail := some newItem }
        ({ s with evTree := s.evTree.insert { found with count := found.count + 1 } }, .ret 0)
    | some found => match found.tail with
        | none => (s, .fault)
        | some tail =>
            ({ s with
                items := s.items.setEnext tail newItem
                evTree := s.evTree.modify time (ListRecord.grow newItem)
                  (ListRecord.grow_scheduledAt newItem) }, .ret 0)

/-- `get_events`. -/
def getEvents (s : State δ) (time : Int) : Option ListRecord := s.evTree.find? time

/-- `pop_events`. -/
def popEvents (s : State δ) (time : Int) : State δ × Option ListRecord :=
  ({ s with evTree := s.evTree.delete time }, s.evTree.find? time)

/-- The time of a list that `rb_t_first` or `rb_t_last` gives. -/
def timeOf : Option ListRecord → Int
  | some found => if 0 < found.count then found.scheduledAt else -1
  | none => -1

/-- `cs_evm_find_nearest_events`. -/
def csEvmFindNearestEvents (s : State δ) : Int := timeOf s.evTree.first?

/-- `cs_evm_find_farthest_events`. -/
def csEvmFindFarthestEvents (s : State δ) : Int := timeOf s.evTree.last?

def step (s : State δ) : Op δ → Option (State δ × Answer δ)
  | .schedule ev time => some (csEvmScheduleEvent s ev time)
  | .getEvents time => some (s, .list s.items (getEvents s time))
  | .popEvents time => some ((popEvents s time).1, .list s.items (popEvents s time).2)
  | .findNearest => some (s, .time (csEvmFindNearestEvents s))
  | .findFarthest => some (s, .time (csEvmFindFarthestEvents s))

/-- What an operation on a timeline answers. -/
inductive TimelineAnswer (δ : Type) where
  | ret (r : Int)
  | events (time : Int) (evs : List (CsEvent δ))
  | time (t : Int)

/-- The operations on a timeline. -/
def timelineStep (m : Timeline δ) : Op δ → Option (Timeline δ × TimelineAnswer δ)
  | .schedule ev time =>
      if ev.etype = none then some (m, .ret (-1)) else some (m.schedule ev time, .ret 0)
  | .getEvents time => some (m, .events time (m.evs time))
  | .popEvents time => some (m.pop time, .events time (m.evs time))
  | .findNearest => some (m, .time m.nearest)
  | .findFarthest => some (m, .time m.farthest)

/-- The list record `l` holds the events `evs`, in the items at the addresses `cells`. -/
structure Holds (items : Items δ) (l : ListRecord) (evs : List (CsEvent δ)) (cells : List Addr) : Prop where
  linked : Linked (fun a => (items a).bind (·.enext)) l.head cells
  tail : l.tail = cells.getLast?
  count : l.count = cells.length
  content : cells.map (fun a => (items a).map (·.ev)) = evs.map some
  nonempty : evs ≠ []

/-- A pointer to a list shows the events of a time. -/
def ShowsList (items : Items δ) (found : Option ListRecord) (time : Int) (evs : List (CsEvent δ)) : Prop :=
  match found with
  | none => evs = []
  | some l => l.scheduledAt = time ∧ ∃ cells, Holds items l evs cells

/-- An answer of the code is the one of the timeline. -/
inductive Shows : Answer δ → TimelineAnswer δ → Prop where
  | ret (r : Int) : Shows (.ret r) (.ret r)
  | time (t : Int) : Shows (.time t) (.time t)
  | list {items : Items δ} {found : Option ListRecord} {time : Int} {evs : List (CsEvent δ)}
      (h : ShowsList items found time evs) : Shows (.list items found) (.events time evs)

/-- The lists of a tree lie in the items at the addresses `cells`, no two of them at one. -/
structure Layout (s : State δ) (m : Timeline δ) (cells : Int → List Addr) : Prop where
  held : ∀ time l, s.evTree.find? time = some l → Holds s.items l (m.evs time) (cells time)
  absent : ∀ time, s.evTree.find? time = none → m.evs time = [] ∧ cells time = []
  apart : ∀ t t' a, a ∈ cells t → a ∈ cells t' → t = t'
  used : ∀ t a, a ∈ cells t → a < s.brk

/-- An event tree represents a timeline. -/
def Represents (s : State δ) (m : Timeline δ) : Prop := ∃ cells, Layout s m cells

theorem init_represents : Represents (init δ) Timeline.empty := by
  refine ⟨fun _ => [], fun time l h => ?_, fun _ _ => ⟨rfl, rfl⟩, by simp, by simp⟩
  simp [init, OrdTable.find?] at h

section Lists

variable {items items' : Items δ} {l : ListRecord} {evs : List (CsEvent δ)} {cells : List Addr}

/-- A list depends on its items only. -/
theorem Holds.frame (h : Holds items l evs cells) (hkeep : ∀ a ∈ cells, items' a = items a) :
    Holds items' l evs cells where
  linked := h.linked.congr fun a ha => by rw [hkeep a ha]
  tail := h.tail
  count := h.count
  content := by
    rw [← h.content]
    exact List.map_congr_left fun a ha => by rw [hkeep a ha]
  nonempty := h.nonempty

theorem Holds.cells_ne_nil (h : Holds items l evs cells) : cells ≠ [] := by
  intro hnil
  have hcontent := h.content
  rw [hnil] at hcontent
  exact h.nonempty (List.map_eq_nil_iff.1 hcontent.symm)

theorem Holds.count_pos (h : Holds items l evs cells) : 0 < l.count := by
  rw [h.count]
  exact Int.natCast_pos.2 (List.length_pos_of_ne_nil h.cells_ne_nil)

/-- `new_ev_list` with its first item. -/
theorem holds_newEvList (ev : CsEvent δ) (time : Int) {a : Addr} (ha : items a = some ⟨ev, none⟩) :
    Holds items { newEvList time with head := some a, tail := some a, count := 1 } [ev] [a] where
  linked := by simp [ha]
  tail := rfl
  count := rfl
  content := by simp [ha]
  nonempty := by simp

/-- A list that gets one more item behind its last one. -/
theorem Holds.grow (h : Holds items l evs cells) {tail a : Addr} (htail : l.tail = some tail) {ev : CsEvent δ}
    (hitem : items' a = some ⟨ev, none⟩)
    (hlink : items' tail = (items tail).map fun item => { item with enext := some a })
    (hkeep : ∀ c ∈ cells, c ≠ tail → items' c = items c) :
    Holds items' (l.grow a) (evs ++ [ev]) (cells ++ [a]) := by
  obtain ⟨front, hcells⟩ : ∃ front, cells = front ++ [tail] :=
    List.getLast?_eq_some_iff.1 (h.tail.symm.trans htail)
  have hnodup := h.linked.nodup
  rw [hcells] at hnodup
  have hfront : ∀ c ∈ front, items' c = items c := by
    intro c hc
    apply hkeep c (by simp [hcells, hc])
    rintro rfl
    exact (List.nodup_append.1 hnodup).2.2 c hc c List.mem_cons_self rfl
  -- the last item is there: it has an event
  obtain ⟨item, hlast⟩ : ∃ item, items tail = some item := by
    have hmem : (items tail).map (·.ev) ∈ evs.map some := by
      rw [← h.content, hcells]
      simp
    obtain ⟨e, -, he⟩ := List.mem_map.1 hmem
    exact Option.isSome_iff_exists.1 (by simpa using congrArg Option.isSome he.symm)
  rw [hlast] at hlink
  refine ⟨?_, by simp [ListRecord.grow], ?_, ?_, by simp⟩
  · have hlinked := h.linked
    rw [hcells] at hlinked
    rw [hcells, List.append_assoc]
    apply hlinked.snoc
    · intro c hc
      rw [hfront c hc]
    · rw [hlink]
      rfl
    · rw [hitem]
      rfl
  · have hcount := h.count
    simp only [ListRecord.grow, List.length_append, List.length_singleton]
    omega
  · have hcontent := h.content
    rw [hcells, List.map_append] at hcontent
    rw [hcells, List.map_append, List.map_append, List.map_append, ← hcontent,
      List.map_congr_left (g := fun a => (items a).map (·.ev)) fun c hc => by rw [hfront c hc]]
    simp [hlink, hlast, hitem]

end Lists

section Operations

variable {s : State δ} {m : Timeline δ} {cells : Int → List Addr}

/-- The times of the tree are the times that have events. -/
theorem Layout.mem_times (h : Layout s m cells) {time : Int} :
    time ∈ m.times ↔ ∃ l ∈ s.evTree.items, l.scheduledAt = time := by
  rw [m.mem_times]
  cases hfind : s.evTree.find? time with
  | none =>
      have hnone := OrdTable.find?_eq_none.1 hfind
      simpa [(h.absent time hfind).1] using hnone
  | some l => exact iff_of_true (h.held time l hfind).nonempty ⟨l, OrdTable.find?_eq_some.1 hfind⟩

theorem Layout.timeOf_eq (h : Layout s m cells) {l : ListRecord} (hl : l ∈ s.evTree.items) :
    timeOf (some l) = l.scheduledAt := by
  have hfind := OrdTable.find?_eq_some.2 ⟨hl, rfl⟩
  exact if_pos (h.held l.scheduledAt l hfind).count_pos

theorem Layout.times_empty (h : Layout s m cells) (hitems : s.evTree.items = []) : ¬ m.times.Nonempty := by
  rintro ⟨time, htime⟩
  obtain ⟨l, hl, -⟩ := h.mem_times.1 htime
  rw [hitems] at hl
  simp at hl

theorem Layout.nearest (h : Layout s m cells) : csEvmFindNearestEvents s = m.nearest := by
  unfold csEvmFindNearestEvents
  cases hfirst : s.evTree.first? with
  | none => rw [Timeline.nearest, dif_neg (h.times_empty (OrdTable.first?_eq_none.1 hfirst))]; rfl
  | some l =>
      obtain ⟨hl, hle⟩ := OrdTable.first?_le hfirst
      rw [h.timeOf_eq hl]
      apply (Timeline.nearest_eq (h.mem_times.2 ⟨l, hl, rfl⟩) fun t ht => ?_).symm
      obtain ⟨l', hl', rfl⟩ := h.mem_times.1 ht
      exact hle l' hl'

theorem Layout.farthest (h : Layout s m cells) : csEvmFindFarthestEvents s = m.farthest := by
  unfold csEvmFindFarthestEvents
  cases hlast : s.evTree.last? with
  | none => rw [Timeline.farthest, dif_neg (h.times_empty (OrdTable.last?_eq_none.1 hlast))]; rfl
  | some l =>
      obtain ⟨hl, hle⟩ := OrdTable.le_last? hlast
      rw [h.timeOf_eq hl]
      apply (Timeline.farthest_eq (h.mem_times.2 ⟨l, hl, rfl⟩) fun t ht => ?_).symm
      obtain ⟨l', hl', rfl⟩ := h.mem_times.1 ht
      exact hle l' hl'

/-- What `get_events` and `pop_events` return. -/
theorem Layout.shows (h : Layout s m cells) (time : Int) :
    ShowsList s.items (s.evTree.find? time) time (m.evs time) := by
  cases hfind : s.evTree.find? time with
  | none => exact (h.absent time hfind).1
  | some l => exact ⟨(OrdTable.find?_eq_some.1 hfind).2, cells time, h.held time l hfind⟩

theorem Layout.pop (h : Layout s m cells) (time : Int) :
    Layout (popEvents s time).1 (m.pop time) (Function.update cells time []) := by
  have hmem : ∀ t a, a ∈ Function.update cells time [] t → t ≠ time ∧ a ∈ cells t := by
    intro t a ha
    by_cases ht : t = time
    · subst ht
      simp at ha
    · exact ⟨ht, by simpa [ht] using ha⟩
  refine ⟨fun t l hl => ?_, fun t ht => ?_, fun t t' a ha ha' => ?_, fun t a ha => ?_⟩
  · by_cases ht : t = time
    · subst ht
      rw [popEvents, OrdTable.find?_delete_self] at hl
      cases hl
    · rw [popEvents, OrdTable.find?_delete_of_ne ht] at hl
      have hheld := h.held t l hl
      simpa [Timeline.pop, popEvents, ht] using hheld
  · by_cases hne : t = time
    · subst hne
      simp [Timeline.pop]
    · rw [popEvents, OrdTable.find?_delete_of_ne hne] at ht
      simpa [Timeline.pop, hne] using h.absent t ht
  · exact h.apart t t' a (hmem t a ha).2 (hmem t' a ha').2
  · exact h.used t a (hmem t a ha).2

/-- A list of another time is not touched by a change of the items of one time and of new ones. -/
theorem Layout.other (h : Layout s m cells) {items' : Items δ} {time t : Int} (ht : t ≠ time)
    (hkeep : ∀ a, a < s.brk → a ∉ cells time → items' a = s.items a) {l : ListRecord}
    (hl : s.evTree.find? t = some l) : Holds items' l (m.evs t) (cells t) := by
  apply (h.held t l hl).frame
  intro a ha
  apply hkeep a (h.used t a ha)
  intro ha'
  exact ht (h.apart t time a ha ha')

/-- The new item of a time lies apart from all others. -/
theorem Layout.cells_grow (h : Layout s m cells) (time : Int) :
    (∀ t t' a, a ∈ Function.update cells time (cells time ++ [s.brk]) t →
      a ∈ Function.update cells time (cells time ++ [s.brk]) t' → t = t') ∧
    ∀ t a, a ∈ Function.update cells time (cells time ++ [s.brk]) t → a < s.brk + 1 := by
  have hmem : ∀ t a, a ∈ Function.update cells time (cells time ++ [s.brk]) t →
      a ∈ cells t ∨ t = time ∧ a = s.brk := by
    intro t a ha
    by_cases ht : t = time
    · subst ht
      simpa using ha
    · exact Or.inl (by simpa [ht] using ha)
  constructor
  · intro t t' a ha ha'
    rcases hmem t a ha with hold | ⟨ht, hnew⟩ <;> rcases hmem t' a ha' with hold' | ⟨ht', hnew'⟩
    · exact h.apart t t' a hold hold'
    · exact absurd hnew' (Nat.ne_of_lt (h.used t a hold))
    · exact absurd hnew (Nat.ne_of_lt (h.used t' a hold'))
    · exact ht.trans ht'.symm
  · intro t a ha
    rcases hmem t a ha with hold | ⟨-, hnew⟩
    · exact Nat.lt_succ_of_lt (h.used t a hold)
    · exact Nat.lt_succ_of_le (Nat.le_of_eq hnew)

/-- One more event at a time, in a new item of its list. -/
theorem Layout.grow (h : Layout s m cells) {t : State δ} {ev : CsEvent δ} {time : Int} {l : ListRecord}
    (hbrk : t.brk = s.brk + 1) (hself : t.evTree.find? time = some l)
    (hother : ∀ j, j ≠ time → t.evTree.find? j = s.evTree.find? j)
    (hheld : Holds t.items l (m.evs time ++ [ev]) (cells time ++ [s.brk]))
    (hkeep : ∀ a, a < s.brk → a ∉ cells time → t.items a = s.items a) :
    Layout t (m.schedule ev time) (Function.update cells time (cells time ++ [s.brk])) := by
  obtain ⟨hapart, hused⟩ := h.cells_grow time
  refine ⟨fun j l' hl => ?_, fun j hj => ?_, hapart, fun j a ha => hbrk ▸ hused j a ha⟩
  · by_cases hne : j = time
    · subst hne
      obtain rfl : l = l' := Option.some.inj (hself.symm.trans hl)
      simpa [Timeline.schedule] using hheld
    · rw [hother j hne] at hl
      simpa [Timeline.schedule, hne] using h.other hne hkeep hl
  · have hne : j ≠ time := by
      rintro rfl
      rw [hself] at hj
      cases hj
    rw [hother j hne] at hj
    simpa [Timeline.schedule, hne] using h.absent j hj

theorem Layout.schedule (h : Layout s m cells) {ev : CsEvent δ} (hetype : ev.etype ≠ none) (time : Int) :
    ∃ t, csEvmScheduleEvent s ev time = (t, .ret 0) ∧
      Layout t (m.schedule ev time) (Function.update cells time (cells time ++ [s.brk])) := by
  unfold csEvmScheduleEvent
  rw [if_neg hetype]
  cases hfind : s.evTree.find? time with
  | none =>
      obtain ⟨hevs, hcells⟩ := h.absent time hfind
      simp only [newEvListItem, hfind]
      let found : ListRecord :=
        { newEvList time with head := some s.brk, tail := some s.brk, count := 1 }
      refine ⟨_, rfl, h.grow (l := found) rfl ?_ ?_ ?_ ?_⟩
      · exact OrdTable.find?_insert_self (x := found) hfind
      · intro j hj
        exact OrdTable.find?_insert_of_ne (x := found) hj
      · rw [hevs, hcells]
        exact holds_newEvList ev time (Function.update_self _ _ _)
      · intro a ha _
        exact Function.update_of_ne (Nat.ne_of_lt ha) _ _
  | some found =>
      have hheld := h.held time found hfind
      obtain ⟨tail, htail⟩ : ∃ tail, found.tail = some tail := by
        rw [hheld.tail]
        exact Option.isSome_iff_exists.1 (by simpa using hheld.cells_ne_nil)
      have hmem : tail ∈ cells time := List.mem_of_getLast? (hheld.tail.symm.trans htail)
      have hne : tail ≠ s.brk := Nat.ne_of_lt (h.used time tail hmem)
      simp only [newEvListItem, hfind, htail]
      refine ⟨_, rfl, h.grow (l := found.grow s.brk) rfl ?_ ?_ ?_ ?_⟩
      · rw [OrdTable.find?_modify, if_pos rfl, hfind]
        rfl
      · intro j hj
        exact (OrdTable.find?_modify (ListRecord.grow_scheduledAt s.brk)).trans (if_neg hj)
      · apply hheld.grow htail
        · show Items.setEnext _ tail s.brk s.brk = some ⟨ev, none⟩
          rw [Items.setEnext, Function.update_of_ne hne.symm, Function.update_self]
        · show Items.setEnext _ tail s.brk tail = _
          rw [Items.setEnext, Function.update_self, Function.update_of_ne hne]
        · intro c hc hct
          show Items.setEnext _ tail s.brk c = s.items c
          rw [Items.setEnext, Function.update_of_ne hct,
            Function.update_of_ne (Nat.ne_of_lt (h.used time c hc))]
      · intro a ha hnot
        show Items.setEnext _ tail s.brk a = s.items a
        have hat : a ≠ tail := by
          rintro rfl
          exact hnot hmem
        rw [Items.setEnext, Function.update_of_ne hat, Function.update_of_ne (Nat.ne_of_lt ha)]

theorem step_agree (h : Represents s m) (op : Op δ) :
    Mealy.Agree Represents Shows (step s op) (timelineStep m op) := by
  obtain ⟨cells, h⟩ := h
  cases op with
  | schedule ev time =>
      by_cases hetype : ev.etype = none
      · simp only [step, csEvmScheduleEvent, timelineStep, if_pos hetype]
        exact .some (.ret _) ⟨cells, h⟩
      · obtain ⟨t, hs, ht⟩ := h.schedule hetype time
        simp only [step, hs, timelineStep, if_neg hetype]
        exact .some (.ret _) ⟨_, ht⟩
  | getEvents time => exact .some (.list (h.shows time)) ⟨cells, h⟩
  | popEvents time => exact .some (.list (h.shows time)) ⟨_, h.pop time⟩
  | findNearest =>
      simp only [step, timelineStep, h.nearest]
      exact .some (.time _) ⟨cells, h⟩
  | findFarthest =>
      simp only [step, timelineStep, h.farthest]
      exact .some (.time _) ⟨cells, h⟩

end Operations

/-- **The event tree is a timeline**: in every sequence of operations the answers of the code are
those of the timeline, and the linked lists of the tree hold its events. -/
theorem event_tree_as_timeline (ops : List (Op δ)) :
    List.Forall₂ Shows (Mealy.run step (init δ) ops).1 (Mealy.run timelineStep Timeline.empty ops).1 ∧
      Represents (Mealy.run step (init δ) ops).2 (Mealy.run timelineStep Timeline.empty ops).2 :=
  Mealy.run_agree (fun _ _ op h _ => step_agree h op) init_represents (Mealy.along_true _ ops)

end ComplexSim.EventMemory
