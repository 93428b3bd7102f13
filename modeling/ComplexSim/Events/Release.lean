import ComplexSim.Events.Tree
import ComplexSim.Lib.Heap
import ComplexSim.Lib.Linked
import ComplexSim.Lib.Transition

/-!
# Who frees an event list

The event tree on a heap: list records, items and guard arrays are cells of it, and the tree maps
times to the addresses of list records. `none` is undefined behaviour: an access to a cell that is
not allocated, a second free of it, a division by zero. `destroy_event_list` frees the items, the
guards and the record itself. The controller, and `cs_destroy_event_manager` through `rb_destroy`,
leave it at that; `cs_evm_delete_events` frees the record again.

Operations come one after the other, each under the lock of the tree; handlers do not touch the
tree. The `calloc` of a cell succeeds, and the `int` that counts the items of a list is unbounded.
-/

namespace ComplexSim.EventHeap

open Events (CsEvent)

/-- The address of a cell; `none` is NULL. -/
abbrev Addr := Nat

variable {δ : Type}

/-- `cs_event_list_t`. -/
structure ListRecord where
  head : Option Addr
  tail : Option Addr
  scheduledAt : Int
  count : Int
  guards : Option Addr
  deriving DecidableEq

inductive Cell (δ : Type) where
  /-- `cs_event_list_item_t` -/
  | item (ev : CsEvent δ) (enext : Option Addr)
  | list (l : ListRecord)
  /-- the array of `guards` -/
  | guards (ptrs : List Addr)

/-- An event manager, as far as events are concerned. -/
structure State (δ : Type) where
  heap : Heap (Cell δ)
  evTree : OrdTable (Prod.fst : Int × Addr → Int)
  /-- the lists that `_ev_controller` has popped and has its tasks work on -/
  popped : List Addr

/-- The operations that discard events. -/
inductive Discard where
  /-- `cs_evm_delete_events` -/
  | deleteEvents (time : Int)
  /-- `cs_evm_throw_scheduled_events` -/
  | throwScheduledEvents (time : Int)
  /-- `_ev_controller` disposes of a popped list -/
  | controller (evList : Addr)
  /-- the destruction of the tree in `cs_destroy_event_manager` -/
  | destroyTree

inductive Op (δ : Type) where
  | schedule (ev : CsEvent δ) (time : Int)
  /-- `pop_events`, for a caller that keeps the list -/
  | popEvents (time : Int)
  /-- `_ev_controller` pops a list and sets its guards -/
  | controllerPop (time : Int) (ntasks : Nat)
  | discard (d : Discard)

def init (δ : Type) : State δ where
  heap := .empty _
  evTree := .empty
  popped := []

/-- `new_ev_list`. -/
def newEvList (time : Int) : ListRecord where
  head := none
  tail := none
  scheduledAt := time
  count := 0
  guards := none

/-- Read a list record. -/
def readList (h : Heap (Cell δ)) (a : Addr) : Option ListRecord :=
  match h.cells a with
  | some (.list l) => some l
  | _ => none

/-- Read an item. -/
def readItem (h : Heap (Cell δ)) (a : Addr) : Option (CsEvent δ × Option Addr) :=
  match h.cells a with
  | some (.item ev enext) => some (ev, enext)
  | _ => none

/-- `a->enext`. -/
def enext (h : Heap (Cell δ)) (a : Addr) : Option Addr := (readItem h a).bind (·.2)

/-- `cs_evm_schedule_event`. -/
def csEvmScheduleEvent (s : State δ) (ev : CsEvent δ) (time : Int) : Option (State δ) :=
  if ev.etype = none then some s
  else
    let (h, newItem) := s.heap.alloc (.item ev none)
    match s.evTree.find? time with
    | none =>
        let (h, found) := h.alloc (.list (newEvList time))
        (h.write found (.list { newEvList time with head := some newItem, tail := some newItem, count := 1 })).map
          fun h => { s with heap := h, evTree := s.evTree.insert (time, found) }
    | some (_, found) => do
        let l ← readList h found
        let tail ← l.tail
        let (last, _) ← readItem h tail
        let h ← h.write tail (.item last (some newItem))
        let h ← h.write found (.list { l with tail := some newItem, count := l.count + 1 })
        some { s with heap := h }

/-- The loop of `destroy_event_list`: each turn frees one cell, so there are no more than `brk`. -/
def freeItems : Nat → Heap (Cell δ) → Option Addr → Option (Heap (Cell δ))
  | _, h, none => some h
  | 0, _, some _ => none
  | k + 1, h, some elem => do
      let (_, next) ← readItem h elem
      let h ← h.free elem
      freeItems k h next

/-- `free` of a pointer that may be NULL. -/
def freePtr (h : Heap (Cell δ)) : Option Addr → Option (Heap (Cell δ))
  | none => some h
  | some a => h.free a

/-- `destroy_event_list`. -/
def destroyEventList (h : Heap (Cell δ)) (list : Addr) : Option (Heap (Cell δ)) := do
  let l ← readList h list
  if l.count = 0 then some h
  else
    let h ← freeItems h.brk h l.head
    let l ← readList h list
    let h ← freePtr h l.guards
    h.free list

/-- `cs_evm_delete_events`. -/
def csEvmDeleteEvents (s : State δ) (time : Int) : Option (State δ) :=
  match s.evTree.find? time with
  | none => some s
  | some (_, found) => do
      let h ← destroyEventList s.heap found
      let h ← h.free found
      some { s with heap := h, evTree := s.evTree.delete time }

/-- The loop of `cs_evm_throw_scheduled_events`: what it reads. -/
def throwItems : Nat → Heap (Cell δ) → Addr → Option Nat
  | 0, _, _ => none
  | k + 1, h, cur => do
      let (_, next) ← readItem h cur
      match next with
      | none => some 1
      | some cur => (throwItems k h cur).map (· + 1)

/-- `cs_evm_throw_scheduled_events`. -/
def csEvmThrowScheduledEvents (s : State δ) (time : Int) : Option (State δ) :=
  match s.evTree.find? time with
  | none => some s
  | some (_, evList) => do
      let l ← readList s.heap evList
      if l.count = 0 then some s
      else
        let cur ← l.head
        let _ ← throwItems s.heap.brk s.heap cur
        csEvmDeleteEvents s time

/-- The inner loop of `_cs_ev_update_guards`. -/
def hop (h : Heap (Cell δ)) : Nat → Addr → Option Addr
  | 0, ptr => some ptr
  | j + 1, ptr => do
      let (_, next) ← readItem h ptr
      match next with
      | none => some ptr
      | some ptr => hop h j ptr

/-- The outer loop of `_cs_ev_update_guards`. -/
def guardsFrom (h : Heap (Cell δ)) (hops : Nat) : Nat → Addr → Option (List Addr)
  | 0, _ => some []
  | i + 1, ptr => do
      let next ← hop h hops ptr
      let rest ← guardsFrom h hops i next
      some (ptr :: rest)

/-- `_cs_ev_update_guards`. -/
def csEvUpdateGuards (h : Heap (Cell δ)) (evList : Addr) (nguards : Nat) : Option (Heap (Cell δ)) := do
  let l ← readList h evList
  if nguards = 0 then none
  else
    let head ← l.head
    let ptrs ← guardsFrom h (max 1 (l.count.toNat / nguards)) nguards head
    let (h, guards) := h.alloc (.guards ptrs)
    h.write evList (.list { l with guards := some guards })

/-- `_ev_controller` up to the tasks of a tick. -/
def controllerPop (s : State δ) (time : Int) (ntasks : Nat) : Option (State δ) :=
  match s.evTree.find? time with
  | none => some s
  | some (_, evList) => do
      let l ← readList s.heap evList
      if 0 < l.count then
        let h ← csEvUpdateGuards s.heap evList ntasks
        some { heap := h, evTree := s.evTree.delete time, popped := evList :: s.popped }
      else some { s with evTree := s.evTree.delete time }

/-- `_ev_controller` when the tasks of a tick have ended. -/
def controllerDispose (s : State δ) (evList : Addr) : Option (State δ) :=
  if evList ∈ s.popped then
    (destroyEventList s.heap evList).map fun h => { s with heap := h, popped := s.popped.erase evList }
  else some s

/-- `rb_destroy(evm->ev_tree, destroy_event_list)`. -/
def destroyTree (s : State δ) : Option (State δ) :=
  (s.evTree.items.foldlM (fun h x => destroyEventList h x.2) s.heap).map fun h => { s with heap := h, evTree := .empty }

def discard (s : State δ) : Discard → Option (State δ)
  | .deleteEvents time => csEvmDeleteEvents s time
  | .throwScheduledEvents time => csEvmThrowScheduledEvents s time
  | .controller evList => controllerDispose s evList
  | .destroyTree => destroyTree s

def step (s : State δ) : Op δ → Option (State δ)
  | .schedule ev time => csEvmScheduleEvent s ev time
  | .popEvents time => some { s with evTree := s.evTree.delete time }
  | .controllerPop time ntasks => controllerPop s time ntasks
  | .discard d => discard s d

def system (δ : Type) : Lts.System (State δ) (Op δ) := .ofFn (· = init δ) step

/-- The items from `p` on. -/
def chain (h : Heap (Cell δ)) : Nat → Option Addr → List Addr
  | _, none => []
  | 0, some _ => []
  | k + 1, some a => a :: chain h k (enext h a)

/-- The cells of a list: its items, its guards and its record. -/
def cellsOf (h : Heap (Cell δ)) (a : Addr) : List Addr :=
  match readList h a with
  | some l => chain h h.brk l.head ++ l.guards.toList ++ [a]
  | none => []

/-- The cells that `d` has to free. -/
def discarded (s : State δ) : Discard → List Addr
  | .deleteEvents time | .throwScheduledEvents time => (s.evTree.find? time).elim [] fun x => cellsOf s.heap x.2
  | .controller evList => if evList ∈ s.popped then cellsOf s.heap evList else []
  | .destroyTree => s.evTree.items.flatMap fun x => cellsOf s.heap x.2

/-- The lists in the tree and those in the controller's hands. -/
def lists (s : State δ) : List Addr := s.evTree.items.map Prod.snd ++ s.popped

/-- `d` frees what it has to free, each cell once, reads nothing freed, and frees no cell of a list
that is still in the tree, or popped and not disposed of. -/
def ReleasesOnce (s : State δ) (d : Discard) : Prop :=
  ∃ s', discard s d = some s' ∧ s'.heap.freed = s.heap.freed ++ discarded s d ∧ s'.heap.freed.Nodup ∧
    ∀ a ∈ lists s', ∀ c ∈ cellsOf s.heap a, (s'.heap.cells c).isSome = true

/-- It is not `cs_evm_delete_events` that discards a list. -/
def Spared (s : State δ) : Discard → Prop
  | .deleteEvents time | .throwScheduledEvents time => s.evTree.find? time = none
  | .controller _ | .destroyTree => True

/-- The list record `l` is at `a`, and its items are at `cells`. -/
structure Holds (h : Heap (Cell δ)) (a : Addr) (l : ListRecord) (cells : List Addr) : Prop where
  record : h.cells a = some (.list l)
  linked : Linked (enext h) l.head cells
  items : ∀ c ∈ cells, ∃ ev p, h.cells c = some (.item ev p)
  tail : l.tail = cells.getLast?
  count : l.count = cells.length
  nonempty : cells ≠ []
  guards : ∀ g, l.guards = some g → ∃ ptrs, h.cells g = some (.guards ptrs)

section Lists

variable {h h' : Heap (Cell δ)} {a : Addr} {l : ListRecord} {cells : List Addr}

theorem enext_congr {c : Addr} (hkeep : h'.cells c = h.cells c) : enext h' c = enext h c := by
  unfold enext readItem
  rw [hkeep]

theorem readItem_eq {c : Addr} {ev : CsEvent δ} {p : Option Addr} (hc : h.cells c = some (.item ev p)) :
    readItem h c = some (ev, p) := by simp [readItem, hc]

theorem enext_eq {c : Addr} {ev : CsEvent δ} {p : Option Addr} (hc : h.cells c = some (.item ev p)) :
    enext h c = p := by simp [enext, readItem_eq hc]

theorem Holds.readList_eq (hl : Holds h a l cells) : readList h a = some l := by
  unfold readList
  rw [hl.record]

theorem Holds.mem (hl : Holds h a l cells) {c : Addr} (hc : c ∈ cells ++ l.guards.toList ++ [a]) :
    (∃ ev p, h.cells c = some (.item ev p)) ∧ c ∈ cells ∨ (∃ ptrs, h.cells c = some (.guards ptrs)) ∧ l.guards = some c ∨
      h.cells c = some (.list l) ∧ c = a := by
  rcases List.mem_append.1 hc with hc | hc
  · rcases List.mem_append.1 hc with hc | hc
    · exact Or.inl ⟨hl.items c hc, hc⟩
    · have hguards := Option.mem_toList.1 hc
      exact Or.inr (Or.inl ⟨hl.guards c hguards, hguards⟩)
  · obtain rfl := List.mem_singleton.1 hc
    exact Or.inr (Or.inr ⟨hl.record, rfl⟩)

theorem Holds.allocated (hl : Holds h a l cells) : ∀ c ∈ cells ++ l.guards.toList ++ [a], (h.cells c).isSome = true := by
  intro c hc
  rcases hl.mem hc with ⟨⟨ev, p, hcell⟩, -⟩ | ⟨⟨ptrs, hcell⟩, -⟩ | ⟨hcell, -⟩ <;> rw [hcell] <;> rfl

/-- Items, guards and record are different cells. -/
theorem Holds.nodup (hl : Holds h a l cells) : (cells ++ l.guards.toList ++ [a]).Nodup := by
  have hguards : ∀ g, l.guards = some g → g ∉ cells ∧ g ≠ a := by
    intro g hg
    obtain ⟨ptrs, hcell⟩ := hl.guards g hg
    constructor
    · intro hmem
      obtain ⟨ev, p, hitem⟩ := hl.items g hmem
      rw [hcell] at hitem
      cases hitem
    · rintro rfl
      rw [hl.record] at hcell
      cases hcell
  have hrecord : a ∉ cells := by
    intro hmem
    obtain ⟨ev, p, hitem⟩ := hl.items a hmem
    rw [hl.record] at hitem
    cases hitem
  cases hg : l.guards with
  | none =>
      rw [Option.toList_none, List.append_nil, List.nodup_append]
      exact ⟨hl.linked.nodup, List.nodup_singleton a, fun c hc d hd hcd => hrecord (by
        rw [← List.mem_singleton.1 hd, ← hcd]
        exact hc)⟩
  | some g =>
      obtain ⟨hnot, hne⟩ := hguards g hg
      rw [Option.toList_some, List.append_assoc, List.nodup_append]
      refine ⟨hl.linked.nodup, by simp [hne], fun c hc d hd hcd => ?_⟩
      subst hcd
      rcases List.mem_cons.1 hd with rfl | hd
      · exact hnot hc
      · exact hrecord (List.mem_singleton.1 hd ▸ hc)

/-- A list depends on its cells only. -/
theorem Holds.frame (hl : Holds h a l cells)
    (hkeep : ∀ c ∈ cells ++ l.guards.toList ++ [a], h'.cells c = h.cells c) : Holds h' a l cells where
  record := (hkeep a (by simp)).trans hl.record
  linked := hl.linked.congr fun c hc => enext_congr (hkeep c (by simp [hc]))
  items := fun c hc => by
    rw [hkeep c (by simp [hc])]
    exact hl.items c hc
  tail := hl.tail
  count := hl.count
  nonempty := hl.nonempty
  guards := fun g hg => by
    rw [hkeep g (by simp [hg])]
    exact hl.guards g hg

theorem chain_eq {p : Option Addr} (hl : Linked (enext h) p cells) {k : Nat} (hk : cells.length ≤ k) :
    chain h k p = cells := by
  induction cells generalizing p k with
  | nil =>
      obtain rfl : p = none := hl
      cases k <;> rfl
  | cons c cells ih =>
      obtain ⟨rfl, hrest⟩ := hl
      cases k with
      | zero => simp at hk
      | succ k =>
          rw [chain, ih hrest (by simpa using hk)]

theorem Holds.length_le (hl : Holds h a l cells) (hs : h.Sound) : cells.length ≤ h.brk := by
  apply hs.length_le hl.linked.nodup
  intro c hc
  exact hl.allocated c (by simp [hc])

theorem Holds.cellsOf_eq (hl : Holds h a l cells) (hs : h.Sound) : cellsOf h a = cells ++ l.guards.toList ++ [a] := by
  unfold cellsOf
  rw [hl.readList_eq]
  show chain h h.brk l.head ++ _ ++ _ = _
  rw [chain_eq hl.linked (hl.length_le hs)]

/-- The loop of `destroy_event_list` frees the items, each once. -/
theorem freeItems_eq {p : Option Addr} (hl : Linked (enext h) p cells)
    (hitems : ∀ c ∈ cells, ∃ ev q, h.cells c = some (.item ev q)) {k : Nat} (hk : cells.length ≤ k) :
    freeItems k h p = some (h.without cells) := by
  induction cells generalizing p k h with
  | nil =>
      obtain rfl : p = none := hl
      cases k <;> simp [freeItems]
  | cons c cells ih =>
      have hnodup := hl.nodup
      obtain ⟨rfl, hrest⟩ := hl
      obtain ⟨hnot, -⟩ := List.nodup_cons.1 hnodup
      obtain ⟨ev, q, hc⟩ := hitems c List.mem_cons_self
      have hkeep : ∀ d ∈ cells, (h.without [c]).cells d = h.cells d := by
        intro d hd
        apply Heap.without_cells_of_notMem
        rintro hmem
        exact hnot (List.mem_singleton.1 hmem ▸ hd)
      cases k with
      | zero => simp at hk
      | succ k =>
          rw [enext_eq hc] at hrest
          have hlinked : Linked (enext (h.without [c])) q cells :=
            hrest.congr fun d hd => enext_congr (hkeep d hd)
          have hloop := ih hlinked (fun d hd => by
            rw [hkeep d hd]
            exact hitems d (List.mem_cons_of_mem c hd)) (k := k) (by simpa using hk)
          rw [Heap.without_append] at hloop
          simpa [freeItems, readItem_eq hc, Heap.free_eq (h := h) (a := c) (by rw [hc]; rfl)] using hloop

/-- `destroy_event_list` frees the items, the guards and the record, each once. -/
theorem Holds.destroy (hl : Holds h a l cells) (hs : h.Sound) :
    destroyEventList h a = some (h.without (cells ++ l.guards.toList ++ [a])) := by
  have hnodup := hl.nodup
  obtain ⟨hfront, -, hrecord⟩ := List.nodup_append.1 hnodup
  obtain ⟨-, -, hguards⟩ := List.nodup_append.1 hfront
  have hcount : l.count ≠ 0 := by
    rw [hl.count]
    have hpos := List.length_pos_of_ne_nil hl.nonempty
    omega
  have hnot : a ∉ cells ++ l.guards.toList := fun ha => hrecord a ha a (List.mem_singleton_self a) rfl
  -- the record is read again for its guards
  have hread : readList (h.without cells) a = some l := by
    unfold readList
    rw [Heap.without_cells_of_notMem fun ha => hnot (List.mem_append_left _ ha), hl.record]
  have hptr : freePtr (h.without cells) l.guards = some (h.without (cells ++ l.guards.toList)) := by
    cases hg : l.guards with
    | none => simp [freePtr]
    | some g =>
        obtain ⟨ptrs, hcell⟩ := hl.guards g hg
        have hmem : g ∉ cells := fun hc => hguards g hc g (by simp [hg]) rfl
        have hsome : ((h.without cells).cells g).isSome = true := by
          rw [Heap.without_cells_of_notMem hmem, hcell]
          rfl
        show (h.without cells).free g = _
        rw [Heap.free_eq hsome, Heap.without_append]
        rfl
  have hlast : (h.without (cells ++ l.guards.toList)).free a = some (h.without (cells ++ l.guards.toList ++ [a])) := by
    rw [Heap.free_eq (by rw [Heap.without_cells_of_notMem hnot, hl.record]; rfl), Heap.without_append]
  simp only [destroyEventList, hl.readList_eq, if_neg hcount, Option.bind_eq_bind, Option.bind_some,
    freeItems_eq hl.linked hl.items (hl.length_le hs), hread, hptr, hlast]

end Lists

/-- Lists at different addresses share no cell. -/
structure Laid (h : Heap (Cell δ)) (evLists : List Addr) : Prop where
  sound : h.Sound
  holds : ∀ a ∈ evLists, ∃ l cells, Holds h a l cells
  apart : evLists.Pairwise fun a b => (cellsOf h a).Disjoint (cellsOf h b)

section Layouts

variable {h h' : Heap (Cell δ)} {a : Addr} {l : ListRecord} {cells evLists evLists' : List Addr} {s s' : State δ}

theorem Laid.empty : Laid (Heap.empty (Cell δ)) [] := ⟨Heap.empty_sound, nofun, List.Pairwise.nil⟩

theorem Laid.perm (hl : Laid h evLists) (hperm : evLists.Perm evLists') : Laid h evLists' where
  sound := hl.sound
  holds := fun a ha => hl.holds a (hperm.mem_iff.2 ha)
  apart := hl.apart.perm hperm fun hdisj => hdisj.symm

theorem Laid.tail (hl : Laid h (a :: evLists)) : Laid h evLists where
  sound := hl.sound
  holds := fun b hb => hl.holds b (List.mem_cons_of_mem a hb)
  apart := hl.apart.of_cons

theorem Laid.head (hl : Laid h (a :: evLists)) : ∃ l cells, Holds h a l cells := hl.holds a List.mem_cons_self

theorem Laid.disjoint (hl : Laid h (a :: evLists)) {b : Addr} (hb : b ∈ evLists) :
    (cellsOf h a).Disjoint (cellsOf h b) :=
  List.rel_of_pairwise_cons hl.apart hb

theorem Laid.allocated (hl : Laid h evLists) (ha : a ∈ evLists) : ∀ c ∈ cellsOf h a, (h.cells c).isSome = true := by
  obtain ⟨l, cells, hheld⟩ := hl.holds a ha
  rw [hheld.cellsOf_eq hl.sound]
  exact hheld.allocated

/-- Changes elsewhere do not touch a list. -/
theorem Laid.frame_one (hl : Laid h evLists) (hsound : h'.Sound) (ha : a ∈ evLists)
    (hkeep : ∀ c ∈ cellsOf h a, h'.cells c = h.cells c) :
    (∃ l cells, Holds h' a l cells) ∧ cellsOf h' a = cellsOf h a := by
  obtain ⟨l, cells, hheld⟩ := hl.holds a ha
  rw [hheld.cellsOf_eq hl.sound] at hkeep ⊢
  have hheld' := hheld.frame hkeep
  exact ⟨⟨l, cells, hheld'⟩, hheld'.cellsOf_eq hsound⟩

theorem Laid.frame (hl : Laid h evLists) (hsound : h'.Sound)
    (hkeep : ∀ a ∈ evLists, ∀ c ∈ cellsOf h a, h'.cells c = h.cells c) : Laid h' evLists where
  sound := hsound
  holds := fun a ha => (hl.frame_one hsound ha (hkeep a ha)).1
  apart := hl.apart.imp_of_mem fun ha hb hdisj => by
    rw [(hl.frame_one hsound ha (hkeep _ ha)).2, (hl.frame_one hsound hb (hkeep _ hb)).2]
    exact hdisj

theorem Laid.cons (hl : Laid h evLists) (hheld : Holds h a l cells)
    (hdisj : ∀ b ∈ evLists, ∀ c ∈ cells ++ l.guards.toList ++ [a], c ∉ cellsOf h b) : Laid h (a :: evLists) where
  sound := hl.sound
  holds := by
    intro b hb
    rcases List.mem_cons.1 hb with rfl | hb
    · exact ⟨l, cells, hheld⟩
    · exact hl.holds b hb
  apart := by
    refine List.pairwise_cons.2 ⟨fun b hb c hc => ?_, hl.apart⟩
    rw [hheld.cellsOf_eq hl.sound] at hc
    exact hdisj b hb c hc

/-- To destroy a list of the layout takes its cells away and leaves the others as they are. -/
theorem Laid.destroy (hl : Laid h (a :: evLists)) :
    destroyEventList h a = some (h.without (cellsOf h a)) ∧ Laid (h.without (cellsOf h a)) evLists ∧
      ∀ b ∈ evLists, cellsOf (h.without (cellsOf h a)) b = cellsOf h b := by
  obtain ⟨l, cells, hheld⟩ := hl.head
  have hsound : (h.without (cellsOf h a)).Sound := by
    rw [hheld.cellsOf_eq hl.sound]
    exact hl.sound.without hheld.nodup hheld.allocated
  have hkeep : ∀ b ∈ evLists, ∀ c ∈ cellsOf h b, (h.without (cellsOf h a)).cells c = h.cells c := by
    intro b hb c hc
    exact Heap.without_cells_of_notMem fun hca => hl.disjoint hb hca hc
  refine ⟨?_, hl.tail.frame hsound hkeep, fun b hb => (hl.tail.frame_one hsound hb (hkeep b hb)).2⟩
  rw [hheld.cellsOf_eq hl.sound]
  exact hheld.destroy hl.sound

/-- `rb_destroy` destroys one list after the other. -/
theorem Laid.destroyAll {items : List (Int × Addr)} (hl : Laid h (items.map Prod.snd ++ evLists)) :
    items.foldlM (fun h x => destroyEventList h x.2) h = some (h.without (items.flatMap fun x => cellsOf h x.2)) ∧
      Laid (h.without (items.flatMap fun x => cellsOf h x.2)) evLists ∧
      ∀ b ∈ evLists, cellsOf (h.without (items.flatMap fun x => cellsOf h x.2)) b = cellsOf h b := by
  induction items generalizing h with
  | nil => exact ⟨by simp, by simpa using hl, by simp⟩
  | cons x items ih =>
      obtain ⟨hone, hrest, hsame⟩ := Laid.destroy (a := x.2) hl
      obtain ⟨hfold, hlaid, hcells⟩ := ih hrest
      have hflat : (items.flatMap fun y => cellsOf (h.without (cellsOf h x.2)) y.2) =
          items.flatMap fun y => cellsOf h y.2 := by
        apply List.flatMap_congr
        intro y hy
        exact hsame y.2 (List.mem_append_left _ (List.mem_map_of_mem hy))
      rw [hflat, Heap.without_append] at hfold hlaid hcells
      refine ⟨?_, hlaid, fun b hb => ?_⟩
      · rw [List.foldlM_cons, hone]
        exact hfold
      · exact (hcells b hb).trans (hsame b (List.mem_append_right _ hb))

end Layouts

section Operations

variable {s s' : State δ} {time : Int} {ev : CsEvent δ}

theorem lists_delete {x : Int × Addr} (hfind : s.evTree.find? time = some x) :
    (lists s).Perm (x.2 :: lists { s with evTree := s.evTree.delete time }) :=
  ((OrdTable.delete_perm hfind).map Prod.snd).append_right s.popped

theorem Laid.lt (hl : Laid s.heap (lists s)) {a c : Addr} (ha : a ∈ lists s) (hc : c ∈ cellsOf s.heap a) :
    c < s.heap.brk :=
  hl.sound.lt (hl.allocated ha c hc)

/-- The cells of a new list are new. -/
theorem schedule_new_laid (hl : Laid s.heap (lists s)) (hfind : s.evTree.find? time = none)
    {h₃ : Heap (Cell δ)} (hwrite : ((s.heap.alloc (.item ev none)).1.alloc (.list (newEvList time))).1.write (s.heap.brk + 1)
      (.list { newEvList time with head := some s.heap.brk, tail := some s.heap.brk, count := 1 }) = some h₃) :
    Laid h₃ (lists { s with heap := h₃, evTree := s.evTree.insert (time, s.heap.brk + 1) }) := by
  obtain ⟨hfound, hother, -, -⟩ := Heap.write_spec hwrite
  have hsound : h₃.Sound := hl.sound.alloc.alloc.write hwrite
  have hnew : h₃.cells s.heap.brk = some (.item ev none) := by
    rw [hother _ (by simp), Heap.alloc_cells_of_ne (by simp)]
    exact Heap.alloc_cells_self
  have hold : ∀ c, c < s.heap.brk → h₃.cells c = s.heap.cells c := by
    intro c hc
    rw [hother c (by simp; omega), Heap.alloc_cells_of_ne (by simp; omega), Heap.alloc_cells_of_ne (by omega)]
  have hheld : Holds h₃ (s.heap.brk + 1) _ [s.heap.brk] :=
    { record := hfound
      linked := ⟨rfl, enext_eq hnew⟩
      items := fun c hc => ⟨ev, none, by rw [List.mem_singleton.1 hc]; exact hnew⟩
      tail := rfl
      count := rfl
      nonempty := List.cons_ne_nil _ _
      guards := nofun }
  have hrest : Laid h₃ (lists s) := hl.frame hsound fun a ha c hc => hold c (hl.lt ha hc)
  have hperm := ((OrdTable.insert_perm (x := (time, s.heap.brk + 1)) hfind).map Prod.snd).append_right s.popped
  refine (hrest.cons hheld fun b hb c hc hcb => ?_).perm hperm.symm
  rw [(hl.frame_one hsound hb fun c hc => hold c (hl.lt hb hc)).2] at hcb
  have hlt : c < s.heap.brk := hl.lt hb hcb
  obtain rfl | rfl : c = s.heap.brk ∨ c = s.heap.brk + 1 := by simpa [newEvList] using hc
  · exact Nat.lt_irrefl _ hlt
  · exact Nat.not_succ_lt_self hlt

/-- A list grows by one new cell, behind its tail. -/
theorem schedule_grow_laid {a : Addr} {rest : List Addr} (hl : Laid s.heap (a :: rest))
    {h₂ h₃ : Heap (Cell δ)} {l : ListRecord} (hread : readList (s.heap.alloc (.item ev none)).1 a = some l) {tail : Addr}
    (htail : l.tail = some tail) {last : CsEvent δ}
    (hlink : (s.heap.alloc (.item ev none)).1.write tail (.item last (some s.heap.brk)) = some h₂)
    (hwrite : h₂.write a (.list { l with tail := some s.heap.brk, count := l.count + 1 }) = some h₃) :
    Laid h₃ (a :: rest) := by
  obtain ⟨l', cells, hheld⟩ := hl.head
  have hcells := hheld.cellsOf_eq hl.sound
  have hlt : ∀ c ∈ cells ++ l'.guards.toList ++ [a], c < s.heap.brk := fun c hc => hl.sound.lt (hheld.allocated c hc)
  have hold : ∀ c, c < s.heap.brk → (s.heap.alloc (.item ev none)).1.cells c = s.heap.cells c :=
    fun c hc => Heap.alloc_cells_of_ne (by omega)
  have hl' : l' = l := by
    have hrecord := (hold a (hlt a (by simp))).trans hheld.record
    unfold readList at hread
    rw [hrecord] at hread
    exact Option.some.inj hread
  subst hl'
  obtain ⟨front, rfl⟩ : ∃ front, cells = front ++ [tail] := by
    obtain ⟨front, t, rfl⟩ := List.eq_nil_or_concat'  cells |>.resolve_left hheld.nonempty
    have hlastcell := hheld.tail
    rw [htail, List.getLast?_concat] at hlastcell
    exact ⟨front, by rw [Option.some.inj hlastcell]⟩
  obtain ⟨htailcell, htailother, -, -⟩ := Heap.write_spec hlink
  obtain ⟨hrecord, hother, -, -⟩ := Heap.write_spec hwrite
  have hsound : h₃.Sound := (hl.sound.alloc.write hlink).write hwrite
  have hnodup := hheld.nodup
  have hta : tail ≠ a := by
    rintro rfl
    simp [List.nodup_append] at hnodup
  have hnot : tail ∉ front := by
    intro hmem
    exact (List.nodup_append.1 hheld.linked.nodup).2.2 tail hmem tail (List.mem_singleton_self tail) rfl
  have hnewa : s.heap.brk ≠ a := Nat.ne_of_gt (hlt a (by simp))
  have hnewt : s.heap.brk ≠ tail := Nat.ne_of_gt (hlt tail (by simp))
  -- every cell but the tail, the record and the new one is as before
  have hkeep : ∀ c, c < s.heap.brk → c ≠ tail → c ≠ a → h₃.cells c = s.heap.cells c := by
    intro c hc hct hca
    rw [hother c hca, htailother c hct, hold c hc]
  have hfrontkeep : ∀ c ∈ front, h₃.cells c = s.heap.cells c := by
    intro c hc
    apply hkeep c (hlt c (by simp [hc]))
    · rintro rfl
      exact hnot hc
    · rintro rfl
      exact (List.nodup_append.1 hnodup).2.2 c (by simp [hc]) c (List.mem_singleton_self c) rfl
  have ht : h₃.cells tail = some (.item last (some s.heap.brk)) := (hother tail hta).trans htailcell
  have hnew : h₃.cells s.heap.brk = some (.item ev none) := by
    rw [hother _ hnewa, htailother _ hnewt]
    exact Heap.alloc_cells_self
  have hheld' : Holds h₃ a { l' with tail := some s.heap.brk, count := l'.count + 1 } (front ++ [tail, s.heap.brk]) :=
    { record := hrecord
      linked := hheld.linked.snoc (fun c hc => enext_congr (hfrontkeep c hc)) (enext_eq ht) (enext_eq hnew)
      items := fun c hc => by
        rcases List.mem_append.1 hc with hc | hc
        · rw [hfrontkeep c hc]
          exact hheld.items c (List.mem_append_left _ hc)
        · rcases List.mem_cons.1 hc with rfl | hc
          · exact ⟨_, _, ht⟩
          · rw [List.mem_singleton.1 hc]
            exact ⟨_, _, hnew⟩
      tail := by simp
      count := by
        show l'.count + 1 = _
        rw [hheld.count]
        simp
        omega
      nonempty := by simp
      guards := fun g hg => by
        obtain ⟨ptrs, hcell⟩ := hheld.guards g hg
        have hlt := hlt g (by simp [show l'.guards = some g from hg])
        refine ⟨ptrs, ?_⟩
        rw [hkeep g hlt ?_ ?_]
        · exact hcell
        · rintro rfl
          obtain ⟨ev, q, hitem⟩ := hheld.items g (by simp)
          rw [hcell] at hitem
          cases hitem
        · rintro rfl
          rw [hheld.record] at hcell
          cases hcell }
  have hrestkeep : ∀ b ∈ rest, ∀ c ∈ cellsOf s.heap b, h₃.cells c = s.heap.cells c := by
    intro b hb c hc
    have hdisj := hl.disjoint hb
    rw [hcells] at hdisj
    apply hkeep c (hl.sound.lt (hl.tail.allocated hb c hc))
    · rintro rfl
      exact hdisj (by simp) hc
    · rintro rfl
      exact hdisj (by simp) hc
  refine (hl.tail.frame hsound hrestkeep).cons hheld' fun b hb c hc hcb => ?_
  rw [(hl.tail.frame_one hsound hb (hrestkeep b hb)).2] at hcb
  have hdisj := hl.disjoint hb
  rw [hcells] at hdisj
  have hlt' := hl.sound.lt (hl.tail.allocated hb c hcb)
  apply hdisj ?_ hcb
  simp at hc ⊢
  rcases hc with hc | rfl | rfl | hc | rfl
  · exact Or.inl hc
  · exact Or.inr (Or.inl rfl)
  · omega
  · exact Or.inr (Or.inr (Or.inl hc))
  · exact Or.inr (Or.inr (Or.inr rfl))

/-- The guards of a list are one new cell. -/
theorem guards_laid {h h' : Heap (Cell δ)} {a : Addr} {rest : List Addr} {nguards : Nat} (hl : Laid h (a :: rest))
    (hguards : csEvUpdateGuards h a nguards = some h') : Laid h' (a :: rest) := by
  obtain ⟨l, cells, hheld⟩ := hl.head
  have hcells := hheld.cellsOf_eq hl.sound
  obtain ⟨ptrs, hwrite⟩ : ∃ ptrs, (h.alloc (.guards ptrs)).1.write a (.list { l with guards := some h.brk }) = some h' := by
    unfold csEvUpdateGuards at hguards
    rw [hheld.readList_eq] at hguards
    simp only [Option.bind_eq_bind, Option.bind_some] at hguards
    split at hguards
    · cases hguards
    · obtain ⟨head, -, hrest⟩ := Option.bind_eq_some_iff.1 hguards
      obtain ⟨ptrs, -, hwrite⟩ := Option.bind_eq_some_iff.1 hrest
      exact ⟨ptrs, hwrite⟩
  have hlt : ∀ c ∈ cells ++ l.guards.toList ++ [a], c < h.brk := fun c hc => hl.sound.lt (hheld.allocated c hc)
  obtain ⟨hrecord, hother, -, -⟩ := Heap.write_spec hwrite
  have hsound : h'.Sound := hl.sound.alloc.write hwrite
  have hkeep : ∀ c, c < h.brk → c ≠ a → h'.cells c = h.cells c := by
    intro c hc hca
    rw [hother c hca, Heap.alloc_cells_of_ne (Nat.ne_of_lt hc)]
  have hitems : ∀ c ∈ cells, h'.cells c = h.cells c := by
    intro c hc
    apply hkeep c (hlt c (by simp [hc]))
    rintro rfl
    exact (List.nodup_append.1 hheld.nodup).2.2 c (by simp [hc]) c (List.mem_singleton_self c) rfl
  have hnew : h'.cells h.brk = some (.guards ptrs) := by
    rw [hother _ (Nat.ne_of_gt (hlt a (by simp)))]
    exact Heap.alloc_cells_self
  have hheld' : Holds h' a { l with guards := some h.brk } cells :=
    { record := hrecord
      linked := hheld.linked.congr fun c hc => enext_congr (hitems c hc)
      items := fun c hc => by
        rw [hitems c hc]
        exact hheld.items c hc
      tail := hheld.tail
      count := hheld.count
      nonempty := hheld.nonempty
      guards := fun g hg => ⟨ptrs, Option.some.inj hg ▸ hnew⟩ }
  have hrestkeep : ∀ b ∈ rest, ∀ c ∈ cellsOf h b, h'.cells c = h.cells c := by
    intro b hb c hc
    apply hkeep c (hl.sound.lt (hl.tail.allocated hb c hc))
    rintro rfl
    exact hl.disjoint hb (by rw [hcells]; simp) hc
  refine (hl.tail.frame hsound hrestkeep).cons hheld' fun b hb c hc hcb => ?_
  rw [(hl.tail.frame_one hsound hb (hrestkeep b hb)).2] at hcb
  have hltb : c < h.brk := hl.sound.lt (hl.tail.allocated hb c hcb)
  have hdisj := hl.disjoint hb
  rw [hcells] at hdisj
  simp only [Option.toList_some, List.append_assoc, List.cons_append, List.nil_append, List.mem_append,
    List.mem_cons, List.not_mem_nil, or_false] at hc
  rcases hc with hc | rfl | rfl
  · exact hdisj (by simp [hc]) hcb
  · exact Nat.lt_irrefl _ hltb
  · exact hdisj (by simp) hcb

/-- `cs_evm_delete_events` frees the record of a list that `destroy_event_list` has freed. -/
theorem delete_faults (hl : Laid s.heap (lists s)) {x : Int × Addr} (hfind : s.evTree.find? time = some x) :
    csEvmDeleteEvents s time = none := by
  have hlaid := hl.perm (lists_delete hfind)
  obtain ⟨l, cells, hheld⟩ := hlaid.head
  obtain ⟨hdestroy, -, -⟩ := hlaid.destroy
  have hmem : x.2 ∈ cellsOf s.heap x.2 := by
    rw [hheld.cellsOf_eq hl.sound]
    simp
  simp only [csEvmDeleteEvents, hfind, hdestroy, Option.bind_eq_bind, Option.bind_some, Heap.free_twice hmem,
    Option.bind_none]

theorem throw_faults (hl : Laid s.heap (lists s)) {x : Int × Addr} (hfind : s.evTree.find? time = some x) :
    csEvmThrowScheduledEvents s time = none := by
  obtain ⟨l, cells, hheld⟩ := (hl.perm (lists_delete hfind)).head
  have hcount : l.count ≠ 0 := by
    rw [hheld.count]
    have hpos := List.length_pos_of_ne_nil hheld.nonempty
    omega
  have hdelete := delete_faults hl hfind
  simp only [csEvmThrowScheduledEvents, hfind, hheld.readList_eq, Option.bind_eq_bind, Option.bind_some, if_neg hcount,
    hdelete]
  simp

/-- `h'` is the heap of `s` without `cells`, and the lists of `evLists` are as they were. -/
structure Freed (s s' : State δ) (cells : List Addr) : Prop where
  heap : s'.heap = s.heap.without cells
  laid : Laid s'.heap (lists s')
  same : ∀ a ∈ lists s', cellsOf s'.heap a = cellsOf s.heap a

/-- The controller disposes of a list in its hands. -/
theorem dispose_freed (hl : Laid s.heap (lists s)) {a : Addr} (ha : a ∈ s.popped) :
    ∃ s', controllerDispose s a = some s' ∧ Freed s s' (cellsOf s.heap a) := by
  have hperm : (lists s).Perm (a :: (s.evTree.items.map Prod.snd ++ s.popped.erase a)) :=
    ((List.perm_cons_erase ha).append_left _).trans List.perm_middle
  obtain ⟨hdestroy, hlaid, hsame⟩ := (hl.perm hperm).destroy
  refine ⟨{ s with heap := s.heap.without (cellsOf s.heap a), popped := s.popped.erase a }, ?_, rfl, hlaid, hsame⟩
  unfold controllerDispose
  rw [if_pos ha, hdestroy]
  rfl

theorem destroyTree_freed (hl : Laid s.heap (lists s)) :
    ∃ s', destroyTree s = some s' ∧ Freed s s' (s.evTree.items.flatMap fun x => cellsOf s.heap x.2) := by
  obtain ⟨hfold, hlaid, hsame⟩ := Laid.destroyAll hl
  refine ⟨{ s with
    heap := s.heap.without (s.evTree.items.flatMap fun x => cellsOf s.heap x.2), evTree := .empty }, ?_, rfl, hlaid, hsame⟩
  unfold destroyTree
  rw [hfold]
  rfl

theorem Freed.refl (hl : Laid s.heap (lists s)) : Freed s s [] := ⟨by simp, hl, fun _ _ => rfl⟩

/-- What `d` discards is freed, unless `d` is `cs_evm_delete_events` and finds a list. -/
theorem discard_freed (hl : Laid s.heap (lists s)) {d : Discard} (hd : Spared s d) :
    ∃ s', discard s d = some s' ∧ Freed s s' (discarded s d) := by
  cases d with
  | deleteEvents time =>
      have hfind : s.evTree.find? time = none := hd
      refine ⟨s, by simp [discard, csEvmDeleteEvents, hfind], ?_⟩
      simpa [discarded, hfind] using Freed.refl hl
  | throwScheduledEvents time =>
      have hfind : s.evTree.find? time = none := hd
      refine ⟨s, by simp [discard, csEvmThrowScheduledEvents, hfind], ?_⟩
      simpa [discarded, hfind] using Freed.refl hl
  | controller evList =>
      by_cases hmem : evList ∈ s.popped
      · simpa [discard, discarded, hmem] using dispose_freed hl hmem
      · refine ⟨s, by simp [discard, controllerDispose, hmem], ?_⟩
        simpa [discarded, hmem] using Freed.refl hl
  | destroyTree => exact destroyTree_freed hl

theorem discard_faults (hl : Laid s.heap (lists s)) {d : Discard} (hd : ¬ Spared s d) : discard s d = none := by
  cases d with
  | deleteEvents time =>
      obtain ⟨x, hfind⟩ := Option.ne_none_iff_exists'.1 hd
      exact delete_faults hl hfind
  | throwScheduledEvents time =>
      obtain ⟨x, hfind⟩ := Option.ne_none_iff_exists'.1 hd
      exact throw_faults hl hfind
  | controller evList => exact absurd trivial hd
  | destroyTree => exact absurd trivial hd

theorem schedule_laid (hl : Laid s.heap (lists s)) (hstep : csEvmScheduleEvent s ev time = some s') :
    Laid s'.heap (lists s') := by
  unfold csEvmScheduleEvent at hstep
  split at hstep
  · cases hstep
    exact hl
  · cases hfind : s.evTree.find? time with
    | none =>
        rw [hfind] at hstep
        obtain ⟨h, hwrite, rfl⟩ := Option.map_eq_some_iff.1 hstep
        exact schedule_new_laid hl hfind hwrite
    | some x =>
        rw [hfind] at hstep
        obtain ⟨l, hread, hstep⟩ := Option.bind_eq_some_iff.1 hstep
        obtain ⟨tail, htail, hstep⟩ := Option.bind_eq_some_iff.1 hstep
        obtain ⟨⟨last, p⟩, -, hstep⟩ := Option.bind_eq_some_iff.1 hstep
        obtain ⟨h₂, hlink, hstep⟩ := Option.bind_eq_some_iff.1 hstep
        obtain ⟨h₃, hwrite, hstep⟩ := Option.bind_eq_some_iff.1 hstep
        cases hstep
        have hperm := lists_delete hfind
        exact (schedule_grow_laid (hl.perm hperm) hread htail hlink hwrite).perm hperm.symm

theorem controllerPop_laid (hl : Laid s.heap (lists s)) {ntasks : Nat} (hstep : controllerPop s time ntasks = some s') :
    Laid s'.heap (lists s') := by
  unfold controllerPop at hstep
  cases hfind : s.evTree.find? time with
  | none =>
      rw [hfind] at hstep
      cases hstep
      exact hl
  | some x =>
      rw [hfind] at hstep
      have hlaid := hl.perm (lists_delete hfind)
      obtain ⟨l, -, hstep⟩ := Option.bind_eq_some_iff.1 hstep
      split at hstep
      · obtain ⟨h, hguards, hstep⟩ := Option.bind_eq_some_iff.1 hstep
        cases hstep
        exact (guards_laid hlaid hguards).perm List.perm_middle.symm
      · cases hstep
        exact hlaid.tail

/-- Every operation that ends keeps the lists where their records say. -/
theorem step_laid (hl : Laid s.heap (lists s)) {op : Op δ} (hstep : step s op = some s') : Laid s'.heap (lists s') := by
  cases op with
  | schedule ev time => exact schedule_laid hl hstep
  | popEvents time =>
      cases hstep
      cases hfind : s.evTree.find? time with
      | none =>
          show Laid s.heap ((s.evTree.delete time).items.map Prod.snd ++ s.popped)
          rw [OrdTable.delete_of_find?_eq_none hfind]
          exact hl
      | some x => exact (hl.perm (lists_delete hfind)).tail
  | controllerPop time ntasks => exact controllerPop_laid hl hstep
  | discard d =>
      by_cases hd : Spared s d
      · obtain ⟨s'', hdiscard, hfreed⟩ := discard_freed hl hd
        obtain rfl : s'' = s' := Option.some.inj (hdiscard.symm.trans hstep)
        exact hfreed.laid
      · rw [show step s (.discard d) = discard s d from rfl, discard_faults hl hd] at hstep
        cases hstep

end Operations

theorem laid {s : State δ} (h : Lts.Reachable (system δ) s) : Laid s.heap (lists s) := by
  refine h.invariant (I := fun s => Laid s.heap (lists s)) ?_ ?_
  · rintro _ rfl
    exact Laid.empty
  · intro s op s' hl _ hstep
    exact step_laid hl hstep

/-- **Event lists are released once.** Exactly the discards other than `cs_evm_delete_events` of a
list free each cell of the lists they discard once, read nothing freed and leave the other lists
alone; `cs_evm_delete_events`, also from `cs_evm_throw_scheduled_events`, faults whenever there is
a list. -/
theorem released_once {s : State δ} (h : Lts.Reachable (system δ) s) (d : Discard) : ReleasesOnce s d ↔ Spared s d := by
  have hl := laid h
  constructor
  · rintro ⟨s', hdiscard, -⟩
    by_contra hd
    rw [discard_faults hl hd] at hdiscard
    cases hdiscard
  · intro hd
    obtain ⟨s', hdiscard, hfreed⟩ := discard_freed hl hd
    refine ⟨s', hdiscard, by rw [hfreed.heap]; rfl, hfreed.laid.sound.nodup, fun a ha c hc => ?_⟩
    rw [← hfreed.same a ha] at hc
    exact hfreed.laid.allocated ha c hc

/-- Two events of time 3 and one of time 5; the list of time 3 is in the controller's hands. -/
def twoLists : List (Op Unit) :=
  [.schedule ⟨some "a", ()⟩ 3, .schedule ⟨some "b", ()⟩ 3, .schedule ⟨some "a", ()⟩ 5, .controllerPop 3 2]

theorem released_once_two : ∃ s, Lts.Reachable (system Unit) s ∧ discarded s (.controller 1) = [0, 2, 5, 1] ∧
    discarded s .destroyTree = [3, 4] ∧ (ReleasesOnce s (.controller 1) ↔ Spared s (.controller 1)) ∧
    (ReleasesOnce s .destroyTree ↔ Spared s .destroyTree) := by
  obtain ⟨s, hexec, hs⟩ := Lts.exec_of_any (f := step) (l := twoLists) (s := init Unit)
    (p := fun s => discarded s (.controller 1) = [0, 2, 5, 1] ∧ discarded s .destroyTree = [3, 4]) (by decide +kernel)
  have hreach : Lts.Reachable (system Unit) s := Lts.exec_reachable rfl hexec
  obtain ⟨hpopped, htree⟩ := of_decide_eq_true hs
  exact ⟨s, hreach, hpopped, htree, released_once hreach _, released_once hreach _⟩

/-- One event, then `cs_evm_delete_events`. -/
theorem delete_frees_twice : ∃ s, Lts.Reachable (system Unit) s ∧ discarded s (.deleteEvents 5) = [0, 1] ∧
    discard s (.deleteEvents 5) = none ∧ discard s (.throwScheduledEvents 5) = none ∧
    ¬ ReleasesOnce s (.deleteEvents 5) := by
  obtain ⟨s, hexec, hs⟩ := Lts.exec_of_any (f := step) (l := [.schedule ⟨some "a", ()⟩ 5]) (s := init Unit)
    (p := fun s => discarded s (.deleteEvents 5) = [0, 1] ∧ (discard s (.deleteEvents 5)).isNone ∧
      (discard s (.throwScheduledEvents 5)).isNone) (by decide +kernel)
  obtain ⟨hcells, hdelete, hthrow⟩ := of_decide_eq_true hs
  have hfault := Option.isNone_iff_eq_none.1 hdelete
  refine ⟨s, Lts.exec_reachable rfl hexec, hcells, hfault, Option.isNone_iff_eq_none.1 hthrow, ?_⟩
  rintro ⟨s', hdiscard, -⟩
  rw [hfault] at hdiscard
  cases hdiscard

end ComplexSim.EventHeap
