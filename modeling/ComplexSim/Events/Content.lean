import ComplexSim.Events.Release
import ComplexSim.Events.Slice

/-!
# What the lists on the heap hold

The heap of an event manager and the event tree that it is for: a node of the tree with a time and the
address of a list record stands for an event list (`Tells`), and a pointer to an item for the rest of a chain
(`Points`). The operations of the event manager keep the two alike. They also keep account of the
memory: every cell that has been given belongs to a list, or is freed (`Accounted`).
-/

namespace ComplexSim.EventHeap

open Events (CsEvent CsEventList EvTree)

variable {δ : Type}

/-- The events of the items at `cells`. -/
def evsAt (h : Heap (Cell δ)) (cells : List Addr) : List (Option (CsEvent δ)) :=
  cells.map fun c => (readItem h c).map Prod.fst

/-- The record at the address of `x` is that of the list `l`, and its items hold the events of `l`. -/
structure Tells (h : Heap (Cell δ)) (x : Int × Addr) (l : CsEventList δ) : Prop where
  time : x.1 = l.scheduledAt
  held : ∃ r cells, Holds h x.2 r cells ∧ r.scheduledAt = l.scheduledAt ∧ r.guards = none ∧
    evsAt h cells = l.chain.map some

/-- From the item at `p` on there are the events `evs`. -/
def Points (h : Heap (Cell δ)) (p : Addr) (evs : List (CsEvent δ)) : Prop :=
  ∃ cells, Linked (enext h) (some p) cells ∧ (∀ c ∈ cells, ∃ ev q, h.cells c = some (.item ev q)) ∧
    evsAt h cells = evs.map some

/-- The record at `a` has guards that point to the chains `gs`. -/
def Guarded (h : Heap (Cell δ)) (a : Addr) (gs : List (List (CsEvent δ))) : Prop :=
  ∃ r g ptrs, h.cells a = some (.list r) ∧ r.guards = some g ∧ h.cells g = some (.guards ptrs) ∧
    List.Forall₂ (Points h) ptrs gs

/-- The list at the address of `x` is `l`, with its guards at the chains `gs`. -/
structure Sliced (h : Heap (Cell δ)) (x : Int × Addr) (l : CsEventList δ) (gs : List (List (CsEvent δ))) : Prop where
  time : x.1 = l.scheduledAt
  count : ∃ r, readList h x.2 = some r ∧ r.count = l.count
  guarded : Guarded h x.2 gs

/-- The number of cells of the lists `l`. -/
def cellCount (h : Heap (Cell δ)) (l : List Addr) : Nat := (l.map fun a => (cellsOf h a).length).sum

/-- Each cell that has been given is freed, or belongs to a list. -/
def Accounted (s : State δ) : Prop := s.heap.brk = s.heap.freed.length + cellCount s.heap (lists s)

section Chains

variable {h h' : Heap (Cell δ)} {a p : Addr} {r : ListRecord} {cells : List Addr} {evs : List (CsEvent δ)}
  {x : Int × Addr} {l : CsEventList δ}

theorem evsAt_congr (hkeep : ∀ c ∈ cells, h'.cells c = h.cells c) : evsAt h' cells = evsAt h cells := by
  apply List.map_congr_left
  intro c hc
  unfold readItem
  rw [hkeep c hc]

theorem evsAt_length (he : evsAt h cells = evs.map some) : cells.length = evs.length := by
  have hlength := congrArg List.length he
  rwa [evsAt, List.length_map, List.length_map] at hlength

theorem Tells.frame (ht : Tells h x l) (hs : h.Sound) (hkeep : ∀ c ∈ cellsOf h x.2, h'.cells c = h.cells c) :
    Tells h' x l := by
  obtain ⟨htime, r, cells, hheld, hat, hguards, hevs⟩ := ht
  rw [hheld.cellsOf_eq hs] at hkeep
  refine ⟨htime, r, cells, hheld.frame hkeep, hat, hguards, ?_⟩
  rw [evsAt_congr fun c hc => hkeep c (by simp [hc]), hevs]

theorem Tells.count (ht : Tells h x l) {r : ListRecord} (hr : readList h x.2 = some r) : r.count = l.count := by
  obtain ⟨-, r', cells, hheld, -, -, hevs⟩ := ht
  obtain rfl : r' = r := Option.some.inj (hheld.readList_eq.symm.trans hr)
  rw [hheld.count, l.count_eq, evsAt_length hevs]

theorem Holds.length_cellsOf (hl : Holds h a r cells) (hs : h.Sound) :
    (cellsOf h a).length = cells.length + r.guards.toList.length + 1 := by
  rw [hl.cellsOf_eq hs, List.length_append, List.length_append, List.length_singleton]

/-- A pointer needs the items that it leads to. -/
theorem Points.frame (hp : Points h p evs) (hkeep : ∀ c ev q, h.cells c = some (.item ev q) → h'.cells c = h.cells c) :
    Points h' p evs := by
  obtain ⟨cells, hlinked, hitems, hevs⟩ := hp
  have hsame : ∀ c ∈ cells, h'.cells c = h.cells c := by
    intro c hc
    obtain ⟨ev, q, hcell⟩ := hitems c hc
    exact hkeep c ev q hcell
  refine ⟨cells, hlinked.congr fun c hc => enext_congr (hsame c hc), fun c hc => ?_, ?_⟩
  · rw [hsame c hc]
    exact hitems c hc
  · rw [evsAt_congr hsame, hevs]

/-- What a pointer leads to. -/
theorem Points.inv (hp : Points h p evs) : ∃ ev q rest, h.cells p = some (.item ev q) ∧ evs = ev :: rest ∧
    (q = none ∧ rest = [] ∨ ∃ p', q = some p' ∧ Points h p' rest) := by
  obtain ⟨cells, hlinked, hitems, hevs⟩ := hp
  cases cells with
  | nil => cases hlinked
  | cons c cells =>
      obtain ⟨hc, hrest⟩ := hlinked
      obtain rfl : p = c := Option.some.inj hc
      obtain ⟨ev, q, hcell⟩ := hitems p List.mem_cons_self
      cases evs with
      | nil => cases hevs
      | cons ev' rest =>
          have hsplit := hevs
          simp only [evsAt, List.map_cons, List.cons.injEq, readItem_eq hcell, Option.map_some, Option.some.injEq] at hsplit
          obtain ⟨rfl, htail⟩ := hsplit
          rw [enext_eq hcell] at hrest
          refine ⟨ev, q, rest, hcell, rfl, ?_⟩
          cases cells with
          | nil => exact Or.inl ⟨hrest, List.map_eq_nil_iff.1 htail.symm⟩
          | cons c cells =>
              obtain ⟨rfl, hmore⟩ := hrest
              exact Or.inr ⟨c, rfl, c :: cells, ⟨rfl, hmore⟩, fun b hb => hitems b (List.mem_cons_of_mem p hb), htail⟩

/-- The inner loop of `_cs_ev_update_guards` goes along the chain. -/
theorem hop_points (hp : Points h p evs) (j : Nat) : ∃ q, hop h j p = some q ∧ Points h q (Events.advance j evs) := by
  induction j generalizing p evs with
  | zero => exact ⟨p, rfl, hp⟩
  | succ j ih =>
      obtain ⟨ev, q, rest, hcell, rfl, hnext⟩ := hp.inv
      rw [hop, readItem_eq hcell]
      rcases hnext with ⟨rfl, rfl⟩ | ⟨p', rfl, hp'⟩
      · exact ⟨p, rfl, hp⟩
      · obtain ⟨ev', q', rest', -, rfl, -⟩ := hp'.inv
        exact ih hp'

/-- The guards point to the chains that the slices start with. -/
theorem guardsFrom_points (hp : Points h p evs) (hops n : Nat) :
    ∃ ptrs, guardsFrom h hops n p = some ptrs ∧ List.Forall₂ (Points h) ptrs (Events.guardsFrom hops n evs) := by
  induction n generalizing p evs with
  | zero => exact ⟨[], rfl, .nil⟩
  | succ n ih =>
      obtain ⟨q, hhop, hq⟩ := hop_points hp hops
      obtain ⟨ptrs, hrest, hptrs⟩ := ih hq
      refine ⟨p :: ptrs, ?_, .cons hp hptrs⟩
      rw [guardsFrom, hhop, Option.bind_eq_bind, Option.bind_some, hrest]
      rfl

end Chains

section Accounts

variable {h h' : Heap (Cell δ)} {a : Addr} {evLists evLists' : List Addr}

@[simp] theorem cellCount_cons : cellCount h (a :: evLists) = (cellsOf h a).length + cellCount h evLists := by
  simp [cellCount]

theorem cellCount_perm (hperm : evLists.Perm evLists') : cellCount h evLists = cellCount h evLists' :=
  (hperm.map _).sum_nat

theorem cellCount_congr (hsame : ∀ b ∈ evLists, cellsOf h' b = cellsOf h b) :
    cellCount h' evLists = cellCount h evLists := by
  unfold cellCount
  rw [List.map_congr_left fun b hb => congrArg List.length (hsame b hb)]

theorem length_flatMap_cellsOf {items : List (Int × Addr)} :
    (items.flatMap fun x => cellsOf h x.2).length = cellCount h (items.map Prod.snd) := by
  simp [cellCount, List.length_flatMap, Function.comp_def]

end Accounts

section Scheduling

variable {s : State δ} {t : EvTree δ} {time : Int} {ev : CsEvent δ}

/-- A new list of one item, in two new cells. -/
theorem schedule_new_cells (hetype : ev.etype ≠ none) (hfind : s.evTree.find? time = none) :
    ∃ h, csEvmScheduleEvent s ev time = some { s with heap := h, evTree := s.evTree.insert (time, s.heap.brk + 1) } ∧
      h.cells s.heap.brk = some (.item ev none) ∧
      h.cells (s.heap.brk + 1) = some (.list
        { newEvList time with head := some s.heap.brk, tail := some s.heap.brk, count := 1 }) ∧
      (∀ c, c < s.heap.brk → h.cells c = s.heap.cells c) ∧ h.brk = s.heap.brk + 2 ∧ h.freed = s.heap.freed := by
  let h₂ := ((s.heap.alloc (.item ev none)).1.alloc (.list (newEvList time))).1
  obtain ⟨h, hwrite⟩ : ∃ h, h₂.write (s.heap.brk + 1) (.list
      { newEvList time with head := some s.heap.brk, tail := some s.heap.brk, count := 1 }) = some h := by
    refine ⟨_, if_pos ?_⟩
    exact congrArg Option.isSome (Heap.alloc_cells_self (h := (s.heap.alloc (.item ev none)).1))
  obtain ⟨hfound, hother, hbrk, hfreed⟩ := Heap.write_spec hwrite
  refine ⟨h, ?_, ?_, hfound, fun c hc => ?_, hbrk, hfreed⟩
  · rw [csEvmScheduleEvent, if_neg hetype]
    simp only [hfind]
    exact congrArg (Option.map _) hwrite
  · rw [hother _ (by omega), Heap.alloc_cells_of_ne (by simp)]
    exact Heap.alloc_cells_self
  · rw [hother c (by omega), Heap.alloc_cells_of_ne (by simp; omega), Heap.alloc_cells_of_ne (by omega)]

/-- A list that is there gets one new item behind its last one. -/
theorem schedule_grow_cells {a : Addr} {r : ListRecord} {cells : List Addr} (hs : s.heap.Sound)
    (hetype : ev.etype ≠ none) (hfind : s.evTree.find? time = some (time, a)) (hheld : Holds s.heap a r cells) :
    ∃ h front tail last, cells = front ++ [tail] ∧ s.heap.cells tail = some (.item last none) ∧
      csEvmScheduleEvent s ev time = some { s with heap := h } ∧
      h.cells s.heap.brk = some (.item ev none) ∧ h.cells tail = some (.item last (some s.heap.brk)) ∧
      h.cells a = some (.list { r with tail := some s.heap.brk, count := r.count + 1 }) ∧
      (∀ c, c < s.heap.brk → c ≠ tail → c ≠ a → h.cells c = s.heap.cells c) ∧
      h.brk = s.heap.brk + 1 ∧ h.freed = s.heap.freed := by
  obtain ⟨front, tail, rfl⟩ : ∃ front tail, cells = front ++ [tail] :=
    (List.eq_nil_or_concat' cells).resolve_left hheld.nonempty
  have htail : r.tail = some tail := by
    rw [hheld.tail, List.getLast?_concat]
  obtain ⟨last, q, hlast⟩ := hheld.items tail (by simp)
  obtain rfl : q = none := by
    rw [← enext_eq hlast]
    exact Linked.of_append hheld.linked
  have hlt : ∀ c ∈ (front ++ [tail]) ++ r.guards.toList ++ [a], c < s.heap.brk :=
    fun c hc => hs.lt (hheld.allocated c hc)
  have hta : tail ≠ a := by
    rintro rfl
    have hrecord := hheld.record
    rw [hlast] at hrecord
    cases hrecord
  let h₁ := (s.heap.alloc (.item ev none)).1
  have hold : ∀ c, c < s.heap.brk → h₁.cells c = s.heap.cells c := fun c hc => Heap.alloc_cells_of_ne (by omega)
  have hlast₁ : h₁.cells tail = some (.item last none) := (hold tail (hlt tail (by simp))).trans hlast
  obtain ⟨h₂, hlink⟩ : ∃ h₂, h₁.write tail (.item last (some s.heap.brk)) = some h₂ := ⟨_, if_pos (by rw [hlast₁]; rfl)⟩
  obtain ⟨htail₂, hother₂, hbrk₂, hfreed₂⟩ := Heap.write_spec hlink
  have hrecord₁ : h₁.cells a = some (.list r) := (hold a (hlt a (by simp))).trans hheld.record
  have hrecord₂ : h₂.cells a = some (.list r) := (hother₂ a hta.symm).trans hrecord₁
  obtain ⟨h, hwrite⟩ : ∃ h, h₂.write a (.list { r with tail := some s.heap.brk, count := r.count + 1 }) = some h :=
    ⟨_, if_pos (by rw [hrecord₂]; rfl)⟩
  obtain ⟨hrecord, hother, hbrk, hfreed⟩ := Heap.write_spec hwrite
  have hnewa : s.heap.brk ≠ a := Nat.ne_of_gt (hlt a (by simp))
  have hnewt : s.heap.brk ≠ tail := Nat.ne_of_gt (hlt tail (by simp))
  refine ⟨h, front, tail, last, rfl, hlast, ?_, ?_, ?_, hrecord, fun c hc hct hca => ?_, hbrk.trans hbrk₂,
    hfreed.trans hfreed₂⟩
  · rw [csEvmScheduleEvent, if_neg hetype]
    have hread : readList h₁ a = some r := by
      unfold readList
      rw [hrecord₁]
    have hread : readList (s.heap.alloc (.item ev none)).1 a = some r := hread
    have hlast : readItem (s.heap.alloc (.item ev none)).1 tail = some (last, none) := readItem_eq hlast₁
    have hlink : (s.heap.alloc (.item ev none)).1.write tail (.item last (some s.heap.brk)) = some h₂ := hlink
    simp only [hfind, Option.bind_eq_bind, Option.bind_some, Heap.alloc_snd, hread, htail, hlast, hlink, hwrite]
  · rw [hother _ hnewa, hother₂ _ hnewt]
    exact Heap.alloc_cells_self
  · rw [hother tail hta, htail₂]
  · rw [hother c hca, hother₂ c hct, hold c hc]

theorem mem_lists {x : Int × Addr} (hx : x ∈ s.evTree.items) : x.2 ∈ lists s :=
  List.mem_append_left _ (List.mem_map_of_mem hx)

theorem tells_key (h : Heap (Cell δ)) (x : Int × Addr) (l : CsEventList δ) (ht : Tells h x l) :
    Prod.fst x = CsEventList.scheduledAt l := ht.time

/-- What a new item changes: the list that gets it, and no other. -/
theorem grow_frame {a : Addr} {r : ListRecord} {front rest : List Addr} {tail : Addr} {h : Heap (Cell δ)} {last : CsEvent δ}
    (hl : Laid s.heap (a :: rest)) (hlaid : Laid h (a :: rest)) (hheld : Holds s.heap a r (front ++ [tail]))
    (hlast : s.heap.cells tail = some (.item last none)) (hitem : h.cells s.heap.brk = some (.item ev none))
    (htail : h.cells tail = some (.item last (some s.heap.brk)))
    (hrecord : h.cells a = some (.list { r with tail := some s.heap.brk, count := r.count + 1 }))
    (hold : ∀ c, c < s.heap.brk → c ≠ tail → c ≠ a → h.cells c = s.heap.cells c) :
    (∀ b ∈ rest, ∀ c ∈ cellsOf s.heap b, h.cells c = s.heap.cells c) ∧
      Holds h a { r with tail := some s.heap.brk, count := r.count + 1 } (front ++ [tail, s.heap.brk]) ∧
      evsAt h (front ++ [tail, s.heap.brk]) = evsAt s.heap (front ++ [tail]) ++ [some ev] := by
  have hlt := fun c hc => hl.sound.lt (hheld.allocated c hc)
  have hfront : ∀ c ∈ front, h.cells c = s.heap.cells c := by
    intro c hc
    apply hold c (hlt c (by simp [hc]))
    · rintro rfl
      exact (List.nodup_append.1 hheld.linked.nodup).2.2 c hc c (List.mem_singleton_self c) rfl
    · rintro rfl
      exact (List.nodup_append.1 hheld.nodup).2.2 c (by simp [hc]) c (List.mem_singleton_self c) rfl
  refine ⟨fun b hb c hc => ?_, ?_, ?_⟩
  · have hdisj := hl.disjoint hb
    rw [hheld.cellsOf_eq hl.sound] at hdisj
    apply hold c (hl.sound.lt (hl.tail.allocated hb c hc))
    · rintro rfl
      exact hdisj (by simp) hc
    · rintro rfl
      exact hdisj (by simp) hc
  · obtain ⟨r', cells, hheld'⟩ := hlaid.head
    obtain rfl : _ = r' := Cell.list.inj (Option.some.inj (hrecord.symm.trans hheld'.record))
    have hlinked := hheld.linked.snoc (fun c hc => enext_congr (hfront c hc)) (enext_eq htail) (enext_eq hitem)
    rwa [hheld'.linked.unique hlinked] at hheld'
  · have hsame := evsAt_congr hfront
    unfold evsAt at hsame ⊢
    simp [hsame, readItem_eq htail, readItem_eq hitem, readItem_eq hlast]

theorem Holds.unique {h : Heap (Cell δ)} {a : Addr} {r r' : ListRecord} {cells cells' : List Addr}
    (hl : Holds h a r cells) (hl' : Holds h a r' cells') : r = r' ∧ cells = cells' := by
  obtain rfl : r = r' := Cell.list.inj (Option.some.inj (hl.record.symm.trans hl'.record))
  exact ⟨rfl, hl.linked.unique hl'.linked⟩

/-- `cs_evm_schedule_event` does not fault, and does to the lists what it does to the event tree. -/
theorem schedule_alike (hl : Laid s.heap (lists s)) (ht : OrdTable.Alike (Tells s.heap) s.evTree t)
    (hacc : Accounted s) (hetype : ev.etype ≠ none) :
    ∃ s', csEvmScheduleEvent s ev time = some s' ∧ s'.popped = s.popped ∧ Accounted s' ∧
      OrdTable.Alike (Tells s'.heap) s'.evTree (Events.csEvmScheduleEvent ev time t).1 := by
  have hrel := ht.find? (tells_key s.heap) time
  rw [Events.csEvmScheduleEvent, if_neg hetype]
  generalize hfind : s.evTree.find? time = x, hfind' : t.find? time = y at hrel
  unfold Accounted at hacc ⊢
  cases hrel with
  | none =>
      obtain ⟨h, hrun, hitem, hrecord, hold, hbrk, hfreed⟩ := schedule_new_cells (s := s) hetype hfind
      have hlaid := schedule_laid hl hrun
      have hkeep : ∀ b ∈ lists s, ∀ c ∈ cellsOf s.heap b, h.cells c = s.heap.cells c :=
        fun b hb c hc => hold c (hl.lt hb hc)
      have hperm : (lists { s with heap := h, evTree := s.evTree.insert (time, s.heap.brk + 1) }).Perm
          ((s.heap.brk + 1) :: lists s) :=
        ((OrdTable.insert_perm (x := (time, s.heap.brk + 1)) hfind).map Prod.snd).append_right s.popped
      -- the list that the new record heads
      obtain ⟨r, cells, hheld⟩ := (hlaid.perm hperm).head
      obtain rfl : _ = r := Cell.list.inj (Option.some.inj (hrecord.symm.trans hheld.record))
      obtain rfl : cells = [s.heap.brk] := hheld.linked.unique ⟨rfl, enext_eq hitem⟩
      refine ⟨_, hrun, rfl, ?_, ?_⟩
      · have hsame := cellCount_congr fun b hb => (hl.frame_one hlaid.sound hb (hkeep b hb)).2
        rw [cellCount_perm hperm, cellCount_cons, hheld.length_cellsOf hlaid.sound, hsame]
        simp only [hbrk, hfreed, newEvList, List.length_singleton, Option.toList_none, List.length_nil]
        omega
      · refine OrdTable.Alike.insert (tells_key h) (ht.imp fun x hx l hxl => ?_) ?_
        · exact hxl.frame hl.sound (hkeep x.2 (mem_lists hx))
        · refine ⟨rfl, _, _, hheld, rfl, rfl, ?_⟩
          simp [evsAt, readItem_eq hitem, Events.newEvList]
  | @some x _ htells =>
      obtain ⟨hx, htime⟩ := OrdTable.find?_eq_some.1 hfind
      obtain ⟨time', a⟩ := x
      obtain rfl : time' = time := htime
      obtain ⟨-, r, cells, hheld, -, -, -⟩ := htells
      obtain ⟨h, front, tail, last, rfl, hlast, hrun, hitem, htail, hrecord, hold, hbrk, hfreed⟩ :=
        schedule_grow_cells hl.sound hetype hfind hheld
      have hperm := lists_delete hfind
      have hlaid : Laid h (a :: lists { s with evTree := s.evTree.delete time' }) := (schedule_laid hl hrun).perm hperm
      obtain ⟨hkeep, hheld', hevs'⟩ := grow_frame (hl.perm hperm) hlaid hheld hlast hitem htail hrecord hold
      refine ⟨_, hrun, rfl, ?_, ?_⟩
      · have hsame := cellCount_congr fun b hb => ((hl.perm hperm).tail.frame_one hlaid.sound hb (hkeep b hb)).2
        have hcount := cellCount_perm (h := s.heap) hperm
        have hcount' := cellCount_perm (h := h) hperm
        rw [cellCount_cons, hheld.length_cellsOf hl.sound] at hcount
        rw [cellCount_cons, hheld'.length_cellsOf hlaid.sound, hsame] at hcount'
        show h.brk = h.freed.length + cellCount h (lists s)
        rw [hfreed]
        simp only [List.length_append, List.length_cons, List.length_nil] at hcount hcount'
        omega
      · refine OrdTable.Alike.modify ht (CsEventList.append_scheduledAt ev) fun x hxmem l hxl => ?_
        by_cases hat : l.scheduledAt = time'
        · obtain rfl : x = (time', a) := s.evTree.eq_of_key hxmem hx (hxl.time.trans hat)
          obtain ⟨htime, r', cells', hheld₂, hsched, hguards, hevs⟩ := hxl
          obtain ⟨rfl, rfl⟩ := hheld.unique hheld₂
          rw [if_pos hat]
          refine ⟨htime, _, _, hheld', hsched, hguards, ?_⟩
          rw [hevs', hevs]
          simp [CsEventList.append]
        · rw [if_neg hat]
          refine hxl.frame hl.sound (hkeep x.2 ?_)
          apply List.mem_append_left
          apply List.mem_map_of_mem
          rw [OrdTable.mem_delete]
          exact ⟨hxmem, fun h => hat (hxl.time.symm.trans h)⟩

end Scheduling

section Popping

variable {s : State δ} {t : EvTree δ} {time : Int}

/-- What remains of the tree without a time stays alike. -/
theorem delete_alike (ht : OrdTable.Alike (Tells s.heap) s.evTree t) (time : Int) :
    OrdTable.Alike (Tells s.heap) (s.evTree.delete time) (Events.popEvents t time).1 :=
  ht.delete (tells_key s.heap) time

/-- `_cs_ev_update_guards` does not fault, and points the guards to the chains of the slices. -/
theorem guards_guarded {h : Heap (Cell δ)} {x : Int × Addr} {l : CsEventList δ} (hs : h.Sound) (ht : Tells h x l)
    {nguards : Nat} (hpos : 0 < nguards) :
    ∃ h', csEvUpdateGuards h x.2 nguards = some h' ∧ Guarded h' x.2 (Events.csEvUpdateGuards l nguards).1 ∧
      (∀ c, c < h.brk → c ≠ x.2 → h'.cells c = h.cells c) ∧ h'.brk = h.brk + 1 ∧ h'.freed = h.freed ∧
      ∃ r, h.cells x.2 = some (.list r) ∧ r.guards = none ∧
        h'.cells x.2 = some (.list { r with guards := some h.brk }) := by
  have hcount : ∀ r, readList h x.2 = some r → r.count = l.count := fun r hr => ht.count hr
  obtain ⟨-, r, cells, hheld, -, hguards, hevs⟩ := ht
  have hread := hheld.readList_eq
  obtain ⟨head, rest, rfl⟩ : ∃ head rest, cells = head :: rest := List.exists_cons_of_ne_nil hheld.nonempty
  have hhead : r.head = some head := hheld.linked.1
  have hpoints : Points h head l.chain := ⟨head :: rest, ⟨rfl, hheld.linked.2⟩, hheld.items, hevs⟩
  obtain ⟨ptrs, hrun, hptrs⟩ := guardsFrom_points hpoints (max 1 (r.count.toNat / nguards)) nguards
  have hlt : x.2 < h.brk := hs.lt (by rw [hheld.record]; rfl)
  have hrecord : (h.alloc (.guards ptrs)).1.cells x.2 = some (.list r) :=
    (Heap.alloc_cells_of_ne (Nat.ne_of_lt hlt)).trans hheld.record
  obtain ⟨h', hwrite⟩ : ∃ h', (h.alloc (.guards ptrs)).1.write x.2 (.list { r with guards := some h.brk }) = some h' :=
    ⟨_, if_pos (by rw [hrecord]; rfl)⟩
  obtain ⟨hwritten, hother, hbrk, hfreed⟩ := Heap.write_spec hwrite
  have hkeep : ∀ c, c < h.brk → c ≠ x.2 → h'.cells c = h.cells c := by
    intro c hc hcx
    rw [hother c hcx, Heap.alloc_cells_of_ne (Nat.ne_of_lt hc)]
  have hitems : ∀ c ev q, h.cells c = some (.item ev q) → h'.cells c = h.cells c := by
    intro c ev q hc
    apply hkeep c (hs.lt (by rw [hc]; rfl))
    rintro rfl
    rw [hheld.record] at hc
    cases hc
  refine ⟨h', ?_, ?_, hkeep, hbrk, hfreed, r, hheld.record, hguards, hwritten⟩
  · simp only [csEvUpdateGuards, hread, Option.bind_eq_bind, Option.bind_some, if_neg (Nat.ne_of_gt hpos), hhead, hrun]
    rw [← hhead]
    exact hwrite
  · refine ⟨_, h.brk, ptrs, hwritten, rfl, ?_, ?_⟩
    · rw [hother _ (Nat.ne_of_gt hlt)]
      exact Heap.alloc_cells_self
    · rw [Events.csEvUpdateGuards, ← hcount r hread]
      exact hptrs.imp fun p g hp => hp.frame hitems

/-- The controller's pop does not fault. The list is in its hands then, with its guards. -/
theorem controllerPop_alike (hl : Laid s.heap (lists s)) (ht : OrdTable.Alike (Tells s.heap) s.evTree t)
    (hacc : Accounted s) {ntasks : Nat} (hpos : 0 < ntasks) :
    ∃ s', controllerPop s time ntasks = some s' ∧ Accounted s' ∧
      OrdTable.Alike (Tells s'.heap) s'.evTree (Events.popEvents t time).1 ∧
      s'.evTree = s.evTree.delete time ∧
      Option.Rel (fun x l => Sliced s'.heap x l (Events.csEvUpdateGuards l ntasks).1) (s.evTree.find? time)
        (t.find? time) := by
  have hrel := ht.find? (tells_key s.heap) time
  generalize hfind : s.evTree.find? time = x, hfind' : t.find? time = y at hrel
  unfold Accounted at hacc ⊢
  cases hrel with
  | none =>
      have hdelete : s.evTree.delete time = s.evTree := OrdTable.ext (OrdTable.delete_of_find?_eq_none hfind)
      refine ⟨s, ?_, hacc, ?_, hdelete.symm, .none⟩
      · rw [controllerPop, hfind]
      · have hsame := delete_alike ht time
        rwa [hdelete] at hsame
  | @some x l htells =>
      obtain ⟨h, hrun, hguarded, hold, hbrk, hfreed, r, hrecord, hguards, hwritten⟩ :=
        guards_guarded hl.sound htells hpos
      have hperm := lists_delete hfind
      have hl' := hl.perm hperm
      have hlaid := guards_laid hl' hrun
      have hkeep : ∀ b ∈ lists { s with evTree := s.evTree.delete time }, ∀ c ∈ cellsOf s.heap b,
          h.cells c = s.heap.cells c := by
        intro b hb c hc
        apply hold c (hl.sound.lt (hl'.tail.allocated hb c hc))
        rintro rfl
        obtain ⟨r', cells, hheld⟩ := hl'.head
        have hdisj := hl'.disjoint hb
        rw [hheld.cellsOf_eq hl.sound] at hdisj
        exact hdisj (by simp) hc
      have hread : readList s.heap x.2 = some r := by
        unfold readList
        rw [hrecord]
      have hcount : 0 < r.count := by
        rw [htells.count hread]
        exact l.count_pos
      refine ⟨{ heap := h, evTree := s.evTree.delete time, popped := x.2 :: s.popped }, ?_, ?_, ?_, rfl, ?_⟩
      · rw [controllerPop, hfind]
        simp only [hread, Option.bind_eq_bind, Option.bind_some, if_pos hcount, hrun]
      · obtain ⟨r₀, cells₀, hheld₀⟩ := hl'.head
        obtain ⟨r₁, cells₁, hheld₁⟩ := hlaid.head
        obtain rfl : r = r₀ := Cell.list.inj (Option.some.inj (hrecord.symm.trans hheld₀.record))
        obtain rfl : _ = r₁ := Cell.list.inj (Option.some.inj (hwritten.symm.trans hheld₁.record))
        have hsame := cellCount_congr fun b hb => (hl'.tail.frame_one hlaid.sound hb (hkeep b hb)).2
        have hbefore := cellCount_perm (h := s.heap) hperm
        have hafter : cellCount h (lists { heap := h, evTree := s.evTree.delete time, popped := x.2 :: s.popped }) =
            _ := cellCount_perm List.perm_middle
        rw [cellCount_cons, hheld₀.length_cellsOf hl.sound] at hbefore
        rw [cellCount_cons, hheld₁.length_cellsOf hlaid.sound] at hafter
        have hlength : cells₁.length = cells₀.length := by
          have hcount₀ := hheld₀.count
          have hcount₁ := hheld₁.count
          simp only at hcount₁
          omega
        have hrest : cellCount h ((s.evTree.delete time).items.map Prod.snd ++ s.popped) = _ := hsame
        rw [hafter, hrest, hfreed, hlength]
        rw [hguards] at hbefore
        simp only [Option.toList_some, Option.toList_none, List.length_singleton, List.length_nil] at hbefore ⊢
        omega
      · refine (delete_alike ht time).imp fun x' hx' l' hxl => ?_
        exact hxl.frame hl.sound (hkeep x'.2 (List.mem_append_left _ (List.mem_map_of_mem hx')))
      · have hsame : r.count = l.count := htells.count hread
        refine .some ⟨htells.time, ⟨{ r with guards := some s.heap.brk }, ?_, hsame⟩, hguarded⟩
        unfold readList
        rw [hwritten]

end Popping

section Releasing

variable {s : State δ} {t : EvTree δ}

/-- A list in the controller's hands goes, with its cells, and the tree stays alike. -/
theorem dispose_alike (hl : Laid s.heap (lists s)) (ht : OrdTable.Alike (Tells s.heap) s.evTree t) (hacc : Accounted s)
    (a : Addr) :
    ∃ s', controllerDispose s a = some s' ∧ Laid s'.heap (lists s') ∧ Accounted s' ∧ s'.evTree = s.evTree ∧
      OrdTable.Alike (Tells s'.heap) s'.evTree t := by
  by_cases ha : a ∈ s.popped
  · obtain ⟨s', hrun, hfreed⟩ := dispose_freed hl ha
    have hresult := hrun
    unfold controllerDispose at hresult
    rw [if_pos ha] at hresult
    obtain ⟨h, -, rfl⟩ := Option.map_eq_some_iff.1 hresult
    obtain ⟨hheap, hlaid, hsame⟩ := hfreed
    have hperm : (lists s).Perm (a :: (s.evTree.items.map Prod.snd ++ s.popped.erase a)) :=
      ((List.perm_cons_erase ha).append_left _).trans List.perm_middle
    refine ⟨_, hrun, hlaid, ?_, rfl, ht.imp fun x hx l hxl => hxl.frame hl.sound fun c hc => ?_⟩
    · unfold Accounted at hacc ⊢
      have hbefore := cellCount_perm (h := s.heap) hperm
      rw [cellCount_cons] at hbefore
      rw [cellCount_congr hsame]
      have hheap : h = s.heap.without (cellsOf s.heap a) := hheap
      rw [hheap, Heap.without_brk, Heap.without_freed, List.length_append]
      show _ = _ + cellCount s.heap (s.evTree.items.map Prod.snd ++ s.popped.erase a)
      omega
    · rw [hheap]
      apply Heap.without_cells_of_notMem
      intro hca
      exact (hl.perm hperm).disjoint (List.mem_append_left _ (List.mem_map_of_mem hx)) hca hc
  · exact ⟨s, by rw [controllerDispose, if_neg ha], hl, hacc, rfl, ht⟩

/-- The destruction of the tree keeps account of the lists that the controller has. -/
theorem destroyTree_accounted (hl : Laid s.heap (lists s)) (hacc : Accounted s) :
    ∃ s', destroyTree s = some s' ∧ Laid s'.heap (lists s') ∧ Accounted s' ∧ lists s' = s.popped := by
  obtain ⟨s', hrun, hheap, hlaid, hsame⟩ := destroyTree_freed hl
  have hresult := hrun
  unfold destroyTree at hresult
  obtain ⟨h, -, rfl⟩ := Option.map_eq_some_iff.1 hresult
  refine ⟨_, hrun, hlaid, ?_, rfl⟩
  unfold Accounted at hacc ⊢
  have hsplit : cellCount s.heap (lists s) =
      cellCount s.heap (s.evTree.items.map Prod.snd) + cellCount s.heap s.popped := by
    simp [cellCount, lists]
  rw [cellCount_congr hsame]
  have hheap : h = s.heap.without (s.evTree.items.flatMap fun x => cellsOf s.heap x.2) := hheap
  rw [hheap, Heap.without_brk, Heap.without_freed, List.length_append, length_flatMap_cellsOf]
  show _ = _ + cellCount s.heap s.popped
  omega

/-- Where no list is left, each cell that has been given is freed, once. -/
theorem Accounted.freed (hacc : Accounted s) (hl : Laid s.heap (lists s)) (hnone : lists s = []) :
    s.heap.freed.Perm (List.range s.heap.brk) ∧ ∀ c, s.heap.cells c = none := by
  unfold Accounted at hacc
  rw [hnone] at hacc
  have hperm := hl.sound.freed_perm (Nat.le_of_eq hacc)
  refine ⟨hperm, fun c => ?_⟩
  by_cases hc : c < s.heap.brk
  · exact (hl.sound.freed c (hperm.mem_iff.2 (List.mem_range.2 hc))).2
  · exact hl.sound.fresh c (Nat.le_of_not_lt hc)

end Releasing

end ComplexSim.EventHeap
