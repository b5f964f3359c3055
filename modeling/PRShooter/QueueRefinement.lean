import PRShooter.LinkedQueue

/-!
# The linked queue is a list

Between calls each node of the queue has its place in the list and its own data (`Holds`). Every
call keeps this, and does to the items what it does to the list (`step_of_ready`).
-/

namespace PRShooter

namespace LinkedQueue

open DoublyLinked

variable {α : Type}

/-! ## The invariant -/

/-- The items are linked into the queue, each has its own data, and the data that has been popped is
still there. -/
structure Holds (queue : Queue α) (popped : List ℕ) (items : List (Item α)) : Prop where
  linked : Linked (links queue.heap) queue.first queue.last (items.map Item.node)
  stored : ∀ i ∈ items, Stored queue.heap i
  given : ∀ d ∈ popped, ∃ x, dataAt queue.heap d = some x
  nodup : (items.map Item.data ++ popped).Nodup

variable {heap heap' : Heap (Block α)} {a c d : ℕ} {x : α} {i : Item α} {queue queue' : Queue α}
  {popped : List ℕ} {items items' : List (Item α)}

/-! ## Pushing -/

/-- A new node, beside whatever is in memory. -/
theorem createNewNode_eq (hnode : heap.block a = none) (hdata : heap.block d = none) (hne : a ≠ d)
    (garbage : QueueNode) (x : α) : ∃ heap', createNewNode a d garbage x heap = some heap' ∧
      heap'.block a = some (.node ⟨⟨none, none⟩, d⟩) ∧ heap'.block d = some (.data x) ∧
      ∀ c, c ≠ a → c ≠ d → heap'.block c = heap.block c := by
  have hfirst : heap.malloc a (.node garbage) = some (heap.set a (.node garbage)) :=
    Heap.malloc_eq_some.mpr ⟨hnode, rfl⟩
  have hsecond : (heap.set a (.node garbage)).malloc d (.data x)
      = some ((heap.set a (.node garbage)).set d (.data x)) := by
    refine Heap.malloc_eq_some.mpr ⟨?_, rfl⟩
    rw [Heap.block_set_of_ne (Ne.symm hne), hdata]
  have hthere : ((heap.set a (.node garbage)).set d (.data x)).block a
      = some (.node garbage) := by
    simp [hne]
  have hnew : createNewNode a d garbage x heap
      = some (((heap.set a (.node garbage)).set d (.data x)).set a (.node ⟨⟨none, none⟩, d⟩)) := by
    unfold createNewNode
    simp only [hfirst, hsecond, bind, Option.bind_some, writeNode_of_block hthere, writeNode_set]
  refine ⟨_, hnew, by simp, by simp [Ne.symm hne], fun c hca hcd => by simp [hca, hcd]⟩

/-- It fits into memory only at unused addresses. -/
theorem fresh_of_createNewNode {garbage : QueueNode}
    (h : createNewNode a d garbage x heap = some heap') :
    heap.block a = none ∧ heap.block d = none ∧ a ≠ d := by
  obtain ⟨heap₁, hfirst, hrest⟩ := Option.bind_eq_some_iff.mp h
  obtain ⟨heap₂, hsecond, -⟩ := Option.bind_eq_some_iff.mp hrest
  obtain ⟨hnode, rfl⟩ := Heap.malloc_eq_some.mp hfirst
  obtain ⟨hdata, -⟩ := Heap.malloc_eq_some.mp hsecond
  rw [Heap.block_set] at hdata
  split_ifs at hdata with hda
  exact ⟨hnode, hdata, fun had => hda had.symm⟩

/-- One more item, linked in somewhere. -/
theorem Holds.add (h : Holds queue popped items) (hext : Extends queue.heap queue'.heap)
    (hi : Stored queue'.heap i) (hfresh : queue.heap.block i.data = none)
    (hperm : items'.Perm (i :: items))
    (hlinked : Linked (links queue'.heap) queue'.first queue'.last (items'.map Item.node)) :
    Holds queue' popped items' where
  linked := hlinked
  stored j hj := by
    rcases List.mem_cons.mp (hperm.mem_iff.mp hj) with rfl | hj
    · exact hi
    · exact (h.stored j hj).extends hext
  given d hd := by
    obtain ⟨x, hx⟩ := h.given d hd
    exact ⟨x, dataAt_eq_some.mpr (hext.data d x (dataAt_eq_some.mp hx))⟩
  nodup := by
    have hnew : i.data ∉ items.map Item.data ++ popped := by
      intro hmem
      obtain ⟨x, hx⟩ : ∃ x, dataAt queue.heap i.data = some x := by
        rcases List.mem_append.mp hmem with hitem | hpopped
        · obtain ⟨j, hj, hsame⟩ := List.mem_map.mp hitem
          exact ⟨j.element, hsame ▸ (h.stored j hj).data⟩
        · exact h.given i.data hpopped
      rw [dataAt_eq_some, hfresh] at hx
      cases hx
    have hperm' := (hperm.map Item.data).append_right popped
    exact hperm'.nodup_iff.mpr (List.nodup_cons.mpr ⟨hnew, h.nodup⟩)

/-- A write to the links of a neighbour, if there is one. -/
def linkTo (heap : Heap (Block α)) (neighbour : Option ℕ) (f : Links ℕ → Links ℕ) :
    Option (Heap (Block α)) :=
  match neighbour with
  | none => some heap
  | some b => writeNode heap b fun node => ⟨f node.toLinks, node.data⟩

/-- A new node, a write to its links, and its neighbour linked to it. -/
def addNode (a d : ℕ) (garbage : QueueNode) (x : α) (g : QueueNode → QueueNode)
    (neighbour : Option ℕ) (f : Links ℕ → Links ℕ) (heap : Heap (Block α)) :
    Option (Heap (Block α)) :=
  (createNewNode a d garbage x heap).bind fun heap =>
    (writeNode heap a g).bind fun heap => linkTo heap neighbour f

theorem queueSyncPushBack_eq (garbage : QueueNode) (x : α) (queue : Queue α) :
    queueSyncPushBack a d garbage x queue =
      (addNode a d garbage x (fun node => { node with previous := queue.last }) queue.last
        (fun l => { l with next := some a }) queue.heap).map fun heap =>
          ⟨heap, if queue.last = none then some a else queue.first, some a⟩ := by
  unfold queueSyncPushBack addNode linkTo
  cases createNewNode a d garbage x queue.heap with
  | none => rfl
  | some heap₁ =>
    simp only [bind, Option.bind_some]
    cases writeNode heap₁ a fun node => { node with previous := queue.last } with
    | none => rfl
    | some heap₂ =>
      cases queue.last with
      | none => rfl
      | some b =>
        simp only [Option.bind_some]
        cases writeNode heap₂ b fun node => { node with next := some a } <;> rfl

theorem queueSyncPushFront_eq (garbage : QueueNode) (x : α) (queue : Queue α) :
    queueSyncPushFront a d garbage x queue =
      (addNode a d garbage x (fun node => { node with next := queue.first }) queue.first
        (fun l => { l with previous := some a }) queue.heap).map fun heap =>
          ⟨heap, some a, if queue.first = none then some a else queue.last⟩ := by
  unfold queueSyncPushFront addNode linkTo
  cases createNewNode a d garbage x queue.heap with
  | none => rfl
  | some heap₁ =>
    simp only [bind, Option.bind_some]
    cases writeNode heap₁ a fun node => { node with next := queue.first } with
    | none => rfl
    | some heap₂ =>
      cases queue.first with
      | none => rfl
      | some b =>
        simp only [Option.bind_some]
        cases writeNode heap₂ b fun node => { node with previous := some a } <;> rfl

/-- The new node and the write to its links: whatever else was there is as before. -/
theorem newNode_eq (hnode : heap.block a = none) (hdata : heap.block d = none) (hne : a ≠ d)
    (garbage : QueueNode) (x : α) {g : QueueNode → QueueNode} {l : Links ℕ}
    (hg : g ⟨⟨none, none⟩, d⟩ = ⟨l, d⟩) :
    ∃ heap', ((createNewNode a d garbage x heap).bind fun heap => writeNode heap a g) = some heap' ∧
      Extends heap heap' ∧ Stored heap' ⟨a, d, x⟩ ∧ links heap' a = some l ∧
      ∀ c, heap.block c ≠ none → heap'.block c = heap.block c := by
  obtain ⟨heap₁, hcreate, ha, hd, hframe⟩ := createNewNode_eq hnode hdata hne garbage x
  have hold : ∀ c, heap.block c ≠ none →
      (heap₁.set a (.node ⟨l, d⟩)).block c = heap.block c := by
    intro c hc
    have hca : c ≠ a := fun h => hc (h ▸ hnode)
    have hcd : c ≠ d := fun h => hc (h ▸ hdata)
    rw [Heap.block_set_of_ne hca, hframe c hca hcd]
  refine ⟨heap₁.set a (.node ⟨l, d⟩), ?_, ⟨fun c node hc => ⟨node.toLinks, ?_⟩, fun c y hc => ?_⟩,
    ⟨?_, ?_⟩, links_set_self, hold⟩
  · rw [hcreate, Option.bind_some, writeNode_of_block ha, hg]
  · rw [hold c (by simp [hc]), hc]
  · rw [hold c (by simp [hc]), hc]
  · rw [nodeAt_eq_some.mpr Heap.block_set_self]
    rfl
  · rw [dataAt_eq_some, Heap.block_set_of_ne (Ne.symm hne), hd]

/-- What a push does to memory: the new node has its links, its neighbour is linked to it, and
whatever else was there is as before. -/
theorem addNode_eq (hnode : heap.block a = none) (hdata : heap.block d = none) (hne : a ≠ d)
    (garbage : QueueNode) (x : α) {g : QueueNode → QueueNode} {l : Links ℕ}
    (hg : g ⟨⟨none, none⟩, d⟩ = ⟨l, d⟩) (neighbour : Option ℕ)
    (hneighbour : ∀ b, neighbour = some b → links heap b ≠ none) (f : Links ℕ → Links ℕ) :
    ∃ heap', addNode a d garbage x g neighbour f heap = some heap' ∧
      Extends heap heap' ∧ Stored heap' ⟨a, d, x⟩ ∧ links heap' a = some l ∧
      (∀ b l', neighbour = some b → links heap b = some l' → links heap' b = some (f l')) ∧
      ∀ c, links heap c ≠ none → neighbour ≠ some c → links heap' c = links heap c := by
  obtain ⟨heap₂, hnew, hext, hstored, hlinks, hold⟩ := newNode_eq hnode hdata hne garbage x hg
  have hkept : ∀ c, links heap c ≠ none → links heap₂ c = links heap c := by
    intro c hc
    obtain ⟨l', hl'⟩ := Option.ne_none_iff_exists'.mp hc
    obtain ⟨data, hblock⟩ := links_eq_some hl'
    exact links_congr (hold c (by simp [hblock]))
  unfold addNode
  rw [← Option.bind_assoc, hnew, Option.bind_some]
  cases neighbour with
  | none =>
    refine ⟨heap₂, rfl, hext, hstored, hlinks, ?_, fun c hc _ => hkept c hc⟩
    intro b l' hb
    cases hb
  | some b =>
    obtain ⟨l', hl'⟩ := Option.ne_none_iff_exists'.mp (hneighbour b rfl)
    obtain ⟨data, hb⟩ := links_eq_some hl'
    have hb₂ := (hold b (by simp [hb])).trans hb
    have hext₃ := extends_set_links hb₂ (f l')
    refine ⟨_, writeNode_of_block hb₂ _, hext.trans hext₃, hstored.extends hext₃, ?_, ?_, ?_⟩
    · have hab : a ≠ b := by
        rintro rfl
        rw [hnode] at hb
        cases hb
      exact (links_set_of_ne hab).trans hlinks
    · intro b' l'' hbb hl''
      obtain rfl := Option.some.inj hbb
      obtain rfl := Option.some.inj (hl'.symm.trans hl'')
      exact links_set_self
    · intro c hc hcb
      have hcb' : c ≠ b := fun h => hcb (h ▸ rfl)
      exact (links_set_of_ne hcb').trans (hkept c hc)

/-- The nodes of the queue have links. -/
theorem Holds.links_ne_none (h : Holds queue popped items) {b : ℕ}
    (hb : b ∈ items.map Item.node) : links queue.heap b ≠ none := by
  obtain ⟨i, hi, rfl⟩ := List.mem_map.mp hb
  obtain ⟨l, hl⟩ := (h.stored i hi).block_node
  simp [links_of_block hl]

theorem Holds.notMem_of_block (h : Holds queue popped items) (ha : queue.heap.block a = none) :
    a ∉ items.map Item.node := by
  intro hmem
  obtain ⟨i, hi, rfl⟩ := List.mem_map.mp hmem
  obtain ⟨l, hl⟩ := (h.stored i hi).block_node
  rw [ha] at hl
  cases hl

/-- The end that a push leaves alone is the new node if the queue was empty. -/
theorem if_none_eq_or {moved kept : Option ℕ} (h : moved = none ↔ kept = none) :
    (if moved = none then some a else kept) = kept.or (some a) := by
  cases kept with
  | none => rw [if_pos (h.mpr rfl), Option.none_or]
  | some b => rw [if_neg (fun hnone => Option.some_ne_none b (h.mp hnone)), Option.some_or]

theorem Holds.pushBack (h : Holds queue popped items) (hnode : queue.heap.block a = none)
    (hdata : queue.heap.block d = none) (hne : a ≠ d) (garbage : QueueNode) (x : α) :
    ∃ queue', queueSyncPushBack a d garbage x queue = some queue' ∧
      Holds queue' popped (items ++ [⟨a, d, x⟩]) := by
  obtain ⟨heap', hadd, hext, hstored, hlinks, hlast, hframe⟩ := addNode_eq hnode hdata hne garbage x
    (g := fun node => { node with previous := queue.last }) (l := ⟨queue.last, none⟩) rfl
    queue.last
    (fun b hb => h.links_ne_none (List.mem_of_getLast? (h.linked.last.symm.trans hb)))
    (fun l => { l with next := some a })
  rw [queueSyncPushBack_eq, hadd]
  refine ⟨_, rfl, h.add hext hstored hdata (List.perm_append_singleton _ _) ?_⟩
  have hlinked := h.linked.pushBack (h.notMem_of_block hnode) hlinks hlast
    fun b hb hne => hframe b (h.links_ne_none hb) hne
  rw [List.map_append]
  exact if_none_eq_or (h.linked.last_eq_none_iff.trans h.linked.first_eq_none_iff.symm) ▸ hlinked

theorem Holds.pushFront (h : Holds queue popped items) (hnode : queue.heap.block a = none)
    (hdata : queue.heap.block d = none) (hne : a ≠ d) (garbage : QueueNode) (x : α) :
    ∃ queue', queueSyncPushFront a d garbage x queue = some queue' ∧
      Holds queue' popped (⟨a, d, x⟩ :: items) := by
  obtain ⟨heap', hadd, hext, hstored, hlinks, hfirst, hframe⟩ := addNode_eq hnode hdata hne garbage
    x (g := fun node => { node with next := queue.first }) (l := ⟨none, queue.first⟩) rfl
    queue.first
    (fun b hb => h.links_ne_none (List.mem_of_head? (h.linked.first.symm.trans hb)))
    (fun l => { l with previous := some a })
  rw [queueSyncPushFront_eq, hadd]
  refine ⟨_, rfl, h.add hext hstored hdata (List.Perm.refl _) ?_⟩
  have hlinked := h.linked.pushFront (h.notMem_of_block hnode) hlinks hfirst
    fun b hb hne => hframe b (h.links_ne_none hb) hne
  exact if_none_eq_or (h.linked.first_eq_none_iff.trans h.linked.last_eq_none_iff.symm) ▸ hlinked

/-! ## Popping -/

/-- The queue without its first item, whose node has been freed. -/
theorem Holds.remove {first last : Option ℕ} (h : Holds queue popped (i :: items))
    (hext : Extends queue.heap heap)
    (hlinked : Linked (links heap) first last (items.map Item.node)) :
    heap.free i.node = some (heap.without [i.node]) ∧
      Holds ⟨heap.without [i.node], first, last⟩ (popped ++ [i.data]) items ∧
      dataAt (heap.without [i.node]) i.data = some i.element := by
  have hi : Stored heap i := (h.stored i List.mem_cons_self).extends hext
  have hothers : ∀ j ∈ items, j.node ≠ i.node := by
    intro j hj hsame
    have hfresh := (List.nodup_cons.mp h.linked.nodup).1
    exact hfresh (hsame ▸ List.mem_map_of_mem hj)
  have hdata : ∀ d x, dataAt heap d = some x → dataAt (heap.without [i.node]) d = some x := by
    intro d x hd
    have hne := hi.node_ne_of_dataAt hd
    rw [dataAt_congr (Heap.block_without_of_notMem (by simpa using Ne.symm hne)), hd]
  have hold := hdata i.data i.element hi.data
  refine ⟨?_, ⟨?_, ?_, ?_, ?_⟩, hold⟩
  · obtain ⟨l, hl⟩ := hi.block_node
    exact Heap.free_eq_some.mpr ⟨by simp [hl], rfl⟩
  · refine hlinked.congr fun c hc => ?_
    obtain ⟨j, hj, rfl⟩ := List.mem_map.mp hc
    exact links_congr (Heap.block_without_of_notMem (by simpa using hothers j hj))
  · intro j hj
    have hj' := (h.stored j (List.mem_cons_of_mem i hj)).extends hext
    exact ⟨by rw [nodeAt_congr (Heap.block_without_of_notMem (by simpa using hothers j hj)),
      hj'.node], hdata _ _ hj'.data⟩
  · intro d hd
    rcases List.mem_append.mp hd with hpopped | hlast
    · obtain ⟨x, hx⟩ := h.given d hpopped
      exact ⟨x, hdata d x (dataAt_eq_some.mpr (hext.data d x (dataAt_eq_some.mp hx)))⟩
    · obtain rfl := List.mem_singleton.mp hlast
      exact ⟨i.element, hold⟩
  · have hperm : (items.map Item.data ++ (popped ++ [i.data])).Perm
        ((i :: items).map Item.data ++ popped) := by
      rw [← List.append_assoc]
      exact List.perm_append_singleton _ _
    exact hperm.nodup_iff.mpr h.nodup

/-- The first node is linked out, and still there. -/
theorem Holds.popFrontNode (h : Holds queue popped (i :: items)) :
    ∃ heap₁ l, popFrontNode queue = some (i.node,
        ⟨heap₁, (items.map Item.node).head?, (items.map Item.node).getLast?⟩) ∧
      nodeAt heap₁ i.node = some ⟨l, i.data⟩ ∧ Extends queue.heap heap₁ ∧
      Linked (links heap₁) (items.map Item.node).head? (items.map Item.node).getLast?
        (items.map Item.node) := by
  have hfirst : queue.first = some i.node := h.linked.first
  have hlast : queue.last = (i.node :: items.map Item.node).getLast? := h.linked.last
  have hnodup := h.linked.nodup
  obtain ⟨l, hl⟩ := (h.stored i List.mem_cons_self).block_node
  have hnode := nodeAt_eq_some.mpr hl
  have hlinks : l = ⟨none, (items.map Item.node).head?⟩ := by
    have hsegment := h.linked.segment.1
    rw [links_of_block hl, Option.or_none] at hsegment
    exact Option.some.inj hsegment
  unfold LinkedQueue.popFrontNode
  simp only [hfirst, hnode, bind, Option.bind_some, hlinks]
  cases items with
  | nil =>
    have hone : queue.last = some i.node := hlast
    rw [if_pos hone]
    exact ⟨queue.heap, l, rfl, hnode, ⟨fun c node hc => ⟨_, hc⟩, fun c x hc => hc⟩, linked_nil _⟩
  | cons j items =>
    have hmore : queue.last ≠ some i.node := by
      intro hone
      refine (List.nodup_cons.mp hnodup).1 (List.mem_of_getLast? ?_)
      rw [← hone, hlast]
      exact List.getLast?_cons_cons.symm
    obtain ⟨lj, hlj⟩ := (h.stored j (by simp)).block_node
    have hij : i.node ≠ j.node := by
      intro hsame
      exact (List.nodup_cons.mp hnodup).1 (by simp [hsame])
    rw [if_neg hmore]
    simp only [List.map_cons, List.head?_cons, Option.bind_some, writeNode_of_block hlj]
    refine ⟨_, l, ?_, ?_, extends_set_links hlj { lj with previous := none }, ?_⟩
    · rw [hlast]
      rfl
    · rw [nodeAt_eq_some, Heap.block_set_of_ne hij, hl]
    · refine h.linked.popFront (fun b lb hb hlb => ?_) fun b hb hne => ?_
      · obtain rfl : j.node = b := Option.some.inj hb
        obtain rfl := Option.some.inj ((links_of_block hlj).symm.trans hlb)
        exact links_set_self
      · refine links_set_of_ne fun hbj => hne ?_
        rw [hbj]
        rfl

theorem Holds.popFront (h : Holds queue popped (i :: items)) :
    ∃ queue', queueSyncPopFront queue = some (i.data, queue') ∧
      Holds queue' (popped ++ [i.data]) items ∧ dataAt queue'.heap i.data = some i.element := by
  obtain ⟨heap₁, l, hpop, hnode, hext, hlinked⟩ := h.popFrontNode
  obtain ⟨hfree, hholds, hdata⟩ := h.remove hext hlinked
  refine ⟨_, ?_, hholds, hdata⟩
  unfold queueSyncPopFront
  rw [hpop]
  simp only [bind, Option.bind_some, hnode, hfree]
  rfl

/-- Data that has been popped can be freed. -/
theorem Holds.free (h : Holds queue popped items) (hd : d ∈ popped) :
    queue.heap.free d = some (queue.heap.without [d]) ∧
      Holds { queue with heap := queue.heap.without [d] } (popped.erase d) items := by
  obtain ⟨x, hx⟩ := h.given d hd
  have hfresh : ∀ j ∈ items, j.node ∉ [d] ∧ j.data ∉ [d] := by
    intro j hj
    refine ⟨by simpa using (h.stored j hj).node_ne_of_dataAt hx, fun hmem => ?_⟩
    have hsame := List.mem_singleton.mp hmem
    exact (List.nodup_append.mp h.nodup).2.2 _ (List.mem_map_of_mem hj) d hd hsame
  have hpopped := (List.nodup_append.mp h.nodup).2.1
  refine ⟨Heap.free_eq_some.mpr ⟨?_, rfl⟩, ?_, ?_, ?_, ?_⟩
  · simp [dataAt_eq_some.mp hx]
  · refine h.linked.congr fun c hc => ?_
    obtain ⟨j, hj, rfl⟩ := List.mem_map.mp hc
    exact links_congr (Heap.block_without_of_notMem (hfresh j hj).1)
  · intro j hj
    exact (h.stored j hj).without (hfresh j hj).1 (hfresh j hj).2
  · intro c hc
    obtain ⟨hne, hmem⟩ := hpopped.mem_erase_iff.mp hc
    obtain ⟨y, hy⟩ := h.given c hmem
    exact ⟨y, by rw [dataAt_congr (Heap.block_without_of_notMem (by simpa using hne)), hy]⟩
  · exact h.nodup.sublist (List.Sublist.append_left List.erase_sublist _)

theorem Holds.popCopyFront (h : Holds queue popped (i :: items)) :
    ∃ queue', queueSyncPopCopyFront queue = some (i.element, queue') ∧
      Holds queue' popped items := by
  obtain ⟨queue₁, hpop, hholds, hdata⟩ := h.popFront
  obtain ⟨hfree, hholds⟩ := hholds.free (List.mem_append_right popped (List.mem_singleton_self _))
  have hfresh : i.data ∉ popped := fun hmem =>
    (List.nodup_append.mp h.nodup).2.2 i.data (by simp) i.data hmem rfl
  rw [List.erase_append_right _ hfresh, List.erase_cons_head, List.append_nil] at hholds
  refine ⟨_, ?_, hholds⟩
  unfold queueSyncPopCopyFront
  rw [hpop]
  simp only [bind, Option.bind_some, hdata, hfree]
  rfl

/-! ## Clearing -/

/-- The blocks of the items, in the order `queueClear` frees them. -/
def blocksOf (items : List (Item α)) : List ℕ := items.flatMap fun i => [i.data, i.node]

theorem mem_blocksOf : c ∈ blocksOf items ↔ ∃ i ∈ items, c = i.data ∨ c = i.node := by
  simp [blocksOf]

theorem nodup_blocksOf (hstored : ∀ i ∈ items, Stored heap i)
    (hnodes : (items.map Item.node).Nodup) (hdatas : (items.map Item.data).Nodup) :
    (blocksOf items).Nodup := by
  induction items with
  | nil => exact List.nodup_nil
  | cons i items ih =>
    obtain ⟨hnode, hnodes⟩ := List.nodup_cons.mp hnodes
    obtain ⟨hdata, hdatas⟩ := List.nodup_cons.mp hdatas
    have hi := hstored i List.mem_cons_self
    have hrest : ∀ j ∈ items, Stored heap j := fun j hj => hstored j (List.mem_cons_of_mem i hj)
    refine List.nodup_cons.mpr ⟨fun hmem => ?_, List.nodup_cons.mpr ⟨fun hmem => ?_,
      ih hrest hnodes hdatas⟩⟩
    · rcases List.mem_cons.mp hmem with hsame | hmem
      · exact hi.node_ne_of_dataAt hi.data hsame.symm
      · obtain ⟨j, hj, hsame | hsame⟩ := mem_blocksOf.mp hmem
        · exact hdata (hsame ▸ List.mem_map_of_mem hj)
        · exact (hrest j hj).node_ne_of_dataAt hi.data hsame.symm
    · obtain ⟨j, hj, hsame | hsame⟩ := mem_blocksOf.mp hmem
      · exact hi.node_ne_of_dataAt (hrest j hj).data hsame
      · exact hnode (hsame ▸ List.mem_map_of_mem hj)

/-- The data of an item is freed, then its node. -/
theorem Stored.free (h : Stored heap i) : heap.free i.data = some (heap.without [i.data]) ∧
    (heap.without [i.data]).free i.node = some (heap.without [i.data, i.node]) := by
  obtain ⟨l, hl⟩ := h.block_node
  have hne := h.node_ne_of_dataAt h.data
  refine ⟨Heap.free_eq_some.mpr ⟨by simp [h.block_data], rfl⟩,
    Heap.free_eq_some.mpr ⟨?_, (Heap.without_without [i.data] [i.node]).symm⟩⟩
  rw [Heap.block_without_of_notMem (by simpa using hne), hl]
  exact Option.some_ne_none _

/-- Neither block belongs to another item. -/
theorem Stored.apart {j : Item α} (hi : Stored heap i) (hj : Stored heap j)
    (hnode : j.node ≠ i.node) (hdata : j.data ≠ i.data) :
    j.node ∉ [i.data, i.node] ∧ j.data ∉ [i.data, i.node] := by
  have hmixed := hj.node_ne_of_dataAt hi.data
  have hmixed' := hi.node_ne_of_dataAt hj.data
  exact ⟨by simp [hmixed, hnode], by simp [hdata, Ne.symm hmixed']⟩

/-- The loop frees the items one after the other, if it has enough turns. -/
theorem clearLoop_eq (turns : ℕ) {before : Option ℕ}
    (hsegment : Segment (links heap) before (items.map Item.node) none)
    (hstored : ∀ i ∈ items, Stored heap i) (hnodes : (items.map Item.node).Nodup)
    (hdatas : (items.map Item.data).Nodup) :
    clearLoop turns (items.map Item.node).head? heap =
      if items.length ≤ turns then some (heap.without (blocksOf items)) else none := by
  induction items generalizing turns heap before with
  | nil =>
    cases turns <;> simp [clearLoop, blocksOf]
  | cons i items ih =>
    cases turns with
    | zero =>
      rw [if_neg (by simp)]
      rfl
    | succ turns =>
      have hi := hstored i List.mem_cons_self
      obtain ⟨l, hl⟩ := hi.block_node
      have hnext : l.next = (items.map Item.node).head? := by
        have hlinks := hsegment.1
        rw [links_of_block hl, Option.or_none] at hlinks
        rw [Option.some.inj hlinks]
      obtain ⟨hfirst, hsecond⟩ := hi.free
      obtain ⟨hnode, hnodes⟩ := List.nodup_cons.mp hnodes
      obtain ⟨hdata, hdatas⟩ := List.nodup_cons.mp hdatas
      have hothers : ∀ j ∈ items, j.node ∉ [i.data, i.node] ∧ j.data ∉ [i.data, i.node] :=
        fun j hj => hi.apart (hstored j (List.mem_cons_of_mem i hj))
          (fun hsame => hnode (hsame ▸ List.mem_map_of_mem hj))
          fun hsame => hdata (hsame ▸ List.mem_map_of_mem hj)
      have hsegment' : Segment (links (heap.without [i.data, i.node])) (some i.node)
          (items.map Item.node) none := by
        refine hsegment.2.congr fun c hc => ?_
        obtain ⟨j, hj, rfl⟩ := List.mem_map.mp hc
        exact links_congr (Heap.block_without_of_notMem (hothers j hj).1)
      have hstored' : ∀ j ∈ items, Stored (heap.without [i.data, i.node]) j := fun j hj =>
        (hstored j (List.mem_cons_of_mem i hj)).without (hothers j hj).1 (hothers j hj).2
      have hloop := ih turns hsegment' hstored' hnodes hdatas
      have hturn : clearLoop (turns + 1) ((i :: items).map Item.node).head? heap
          = clearLoop turns (items.map Item.node).head? (heap.without [i.data, i.node]) := by
        simp only [List.map_cons, List.head?_cons, clearLoop, nodeAt_eq_some.mpr hl, bind,
          Option.bind_some, hfirst, hsecond, hnext]
      rw [hturn, hloop, Heap.without_without]
      simp only [List.length_cons, Nat.add_le_add_iff_right]
      rfl

theorem Holds.clear (h : Holds queue popped items) (turns : ℕ) :
    queueClear turns queue =
      if items.length ≤ turns then some ⟨queue.heap.without (blocksOf items), none, none⟩
      else none := by
  have hloop := clearLoop_eq turns h.linked.segment h.stored h.linked.nodup
    (List.nodup_append.mp h.nodup).1
  unfold queueClear
  rw [h.linked.first, hloop]
  split_ifs <;> rfl

/-- The data that has been popped outlives the queue's. -/
theorem Holds.without (h : Holds queue popped items) :
    Holds ⟨queue.heap.without (blocksOf items), none, none⟩ popped ([] : List (Item α)) := by
  refine ⟨linked_nil _, by simp, fun d hd => ?_, (List.nodup_append.mp h.nodup).2.1⟩
  obtain ⟨x, hx⟩ := h.given d hd
  refine ⟨x, ?_⟩
  rw [dataAt_congr (Heap.block_without_of_notMem fun hmem => ?_), hx]
  obtain ⟨i, hi, hsame | hsame⟩ := mem_blocksOf.mp hmem
  · exact (List.nodup_append.mp h.nodup).2.2 i.data (List.mem_map_of_mem hi) d hd hsame.symm
  · exact (h.stored i hi).node_ne_of_dataAt hx hsame.symm

theorem Holds.clearsAll (h : Holds queue popped items) : ClearsAll queue := by
  intro nodes hpath turns hturns
  obtain rfl := hpath.unique h.linked.forward
  rw [List.length_map] at hturns
  refine ⟨blocksOf items, ?_, nodup_blocksOf h.stored h.linked.nodup
    (List.nodup_append.mp h.nodup).1, fun c => ?_⟩
  · rw [h.clear, if_pos hturns]
  · rw [mem_blocksOf]
    constructor
    · rintro ⟨i, hi, rfl | rfl⟩
      · exact .inr ⟨i.node, List.mem_map_of_mem hi, (h.stored i hi).node⟩
      · exact .inl (List.mem_map_of_mem hi)
    · rintro (hnode | ⟨a, ha, hdata⟩)
      · obtain ⟨i, hi, rfl⟩ := List.mem_map.mp hnode
        exact ⟨i, hi, .inr rfl⟩
      · obtain ⟨i, hi, rfl⟩ := List.mem_map.mp ha
        exact ⟨i, hi, .inl (Option.some.inj (hdata.symm.trans (h.stored i hi).node))⟩

theorem Holds.spells (h : Holds queue popped items) :
    Spells queue (items.map Item.element) := by
  refine ⟨items.map Item.node, h.linked.nodup, h.linked.forward, h.linked.backward, ?_, ?_, ?_⟩
  · rw [List.map_map, List.map_map]
    refine List.map_congr_left fun i hi => ?_
    obtain ⟨l, hl⟩ := (h.stored i hi).block_node
    show (nodeAt queue.heap i.node).bind _ = some i.element
    rw [nodeAt_eq_some.mpr hl]
    exact (h.stored i hi).data
  · rw [h.linked.first_eq_none_iff, List.map_eq_nil_iff, List.map_eq_nil_iff]
  · rw [h.linked.last_eq_none_iff, List.map_eq_nil_iff, List.map_eq_nil_iff]

/-! ## Calls -/

variable {s t : State α} {op : Op α}

/-- A call that is ready succeeds, and does to the items what it does to the contents. -/
theorem step_of_ready (h : Holds s.queue s.popped items)
    (hready : Ready s (items.map Item.element) op) :
    ∃ t items', step s op = some t ∧ Holds t.queue t.popped items' ∧
      modelStep (items.map Item.element, s.results) op
        = some (items'.map Item.element, t.results) := by
  cases op with
  | pushBack a d garbage x =>
    obtain ⟨hnode, hdata, hne⟩ := hready
    obtain ⟨queue', hpush, hholds⟩ := h.pushBack hnode hdata hne garbage x
    refine ⟨_, _, congrArg (Option.map _) hpush, hholds, ?_⟩
    rw [List.map_append]
    rfl
  | pushFront a d garbage x =>
    obtain ⟨hnode, hdata, hne⟩ := hready
    obtain ⟨queue', hpush, hholds⟩ := h.pushFront hnode hdata hne garbage x
    exact ⟨_, _, congrArg (Option.map _) hpush, hholds, rfl⟩
  | popFront =>
    cases items with
    | nil => exact absurd rfl hready
    | cons i items =>
      obtain ⟨queue', hpop, hholds, hdata⟩ := h.popFront
      refine ⟨⟨queue', s.popped ++ [i.data], s.results ++ [.popped i.element]⟩, items, ?_, hholds,
        rfl⟩
      simp only [step, hpop, bind, Option.bind_some, hdata]
      rfl
  | popCopyFront =>
    cases items with
    | nil => exact absurd rfl hready
    | cons i items =>
      obtain ⟨queue', hpop, hholds⟩ := h.popCopyFront
      exact ⟨_, items, congrArg (Option.map _) hpop, hholds, rfl⟩
  | free d =>
    have hd : d ∈ s.popped := hready
    obtain ⟨hfree, hholds⟩ := h.free hd
    refine ⟨⟨_, s.popped.erase d, s.results⟩, items, ?_, hholds, rfl⟩
    show (if d ∈ s.popped then _ else none) = _
    rw [if_pos hd, hfree]
    rfl
  | isEmpty =>
    refine ⟨_, items, rfl, h, ?_⟩
    have hempty : queueSyncIsEmpty s.queue = (items.map Item.element).isEmpty := by
      unfold queueSyncIsEmpty
      rw [h.linked.first]
      cases items <;> rfl
    rw [hempty]
    rfl
  | clear turns =>
    have hturns : (items.map Item.element).length ≤ turns := hready
    rw [List.length_map] at hturns
    have hclear := h.clear turns
    rw [if_pos hturns] at hclear
    exact ⟨_, [], congrArg (Option.map _) hclear, h.without, rfl⟩

/-- Any other call fails. -/
theorem ready_of_step (h : Holds s.queue s.popped items) (hstep : step s op = some t) :
    Ready s (items.map Item.element) op := by
  have hitems : ∀ {β : Type} {b : β} {f : ℕ → Option β}, s.queue.first.bind f = some b →
      items.map Item.element ≠ [] := by
    rintro β b f hfirst hempty
    rw [h.linked.first_eq_none_iff.mpr (by simpa using hempty)] at hfirst
    cases hfirst
  cases op with
  | pushBack a d garbage x =>
    obtain ⟨queue', hpush, -⟩ := Option.map_eq_some_iff.mp hstep
    obtain ⟨heap₁, hcreate, -⟩ := Option.bind_eq_some_iff.mp hpush
    exact fresh_of_createNewNode hcreate
  | pushFront a d garbage x =>
    obtain ⟨queue', hpush, -⟩ := Option.map_eq_some_iff.mp hstep
    obtain ⟨heap₁, hcreate, -⟩ := Option.bind_eq_some_iff.mp hpush
    exact fresh_of_createNewNode hcreate
  | popFront =>
    obtain ⟨r, hpop, -⟩ := Option.bind_eq_some_iff.mp hstep
    obtain ⟨r', hfront, -⟩ := Option.bind_eq_some_iff.mp hpop
    exact hitems hfront
  | popCopyFront =>
    obtain ⟨r, hcopy, -⟩ := Option.map_eq_some_iff.mp hstep
    obtain ⟨r', hpop, -⟩ := Option.bind_eq_some_iff.mp hcopy
    obtain ⟨r'', hfront, -⟩ := Option.bind_eq_some_iff.mp hpop
    exact hitems hfront
  | free d =>
    show d ∈ s.popped
    have hsome : (if d ∈ s.popped then _ else none) = some t := hstep
    split_ifs at hsome with hd
    exact hd
  | isEmpty => trivial
  | clear turns =>
    obtain ⟨queue', hclear, -⟩ := Option.map_eq_some_iff.mp hstep
    rw [h.clear] at hclear
    show (items.map Item.element).length ≤ turns
    rw [List.length_map]
    split_ifs at hclear with hturns
    exact hturns

theorem step_isSome_iff (h : Holds s.queue s.popped items) :
    (step s op).isSome = true ↔ Ready s (items.map Item.element) op := by
  constructor
  · intro hsome
    obtain ⟨t, hstep⟩ := Option.isSome_iff_exists.mp hsome
    exact ready_of_step h hstep
  · intro hready
    obtain ⟨t, -, hstep, -⟩ := step_of_ready h hready
    rw [hstep]
    rfl

/-- A run of calls. -/
theorem holds_of_run {ops : List (Op α)} (h : Holds s.queue s.popped items)
    (hrun : Lts.run step ops s = some t) :
    ∃ items', Holds t.queue t.popped items' ∧
      Lts.run modelStep ops (items.map Item.element, s.results)
        = some (items'.map Item.element, t.results) := by
  induction ops generalizing s items with
  | nil =>
    obtain rfl : s = t := by simpa using hrun
    exact ⟨items, h, rfl⟩
  | cons op ops ih =>
    obtain ⟨u, hstep, hrest⟩ := Option.bind_eq_some_iff.mp hrun
    obtain ⟨u', items', hstep', hholds, hmodel⟩ := step_of_ready h (ready_of_step h hstep)
    obtain rfl : u = u' := Option.some.inj (hstep.symm.trans hstep')
    obtain ⟨items'', hholds', hmodel'⟩ := ih hholds hrest
    refine ⟨items'', hholds', ?_⟩
    rw [Lts.run_cons, hmodel, Option.bind_some, hmodel']

theorem holds_initial (heap : Heap (Block α)) :
    Holds (initial heap).queue (initial heap).popped ([] : List (Item α)) :=
  ⟨linked_nil _, by simp, by simp [initial], by simp [initial]⟩

/-- **The queue is a list.** After any calls from `queueSyncCreate` on, the nodes spell the list the
same calls lead to, and the calls have returned the same. A call succeeds, without touching memory
that is not allocated, if and only if it is ready: of an empty queue nothing is popped, and new
blocks are unused. `queueClear` returns, and frees what is left once. -/
theorem queue_refines_list (heap : Heap (Block α)) (ops : List (Op α)) (s : State α)
    (h : Lts.run step ops (initial heap) = some s) :
    ∃ contents, Lts.run modelStep ops ([], []) = some (contents, s.results) ∧
      Spells s.queue contents ∧
      (∀ op, (step s op).isSome = true ↔ Ready s contents op) ∧ ClearsAll s.queue := by
  obtain ⟨items, hholds, hmodel⟩ := holds_of_run (holds_initial heap) h
  exact ⟨items.map Item.element, hmodel, hholds.spells, fun op => step_isSome_iff hholds,
    hholds.clearsAll⟩

/-- A heap without blocks. -/
def emptyHeap (α : Type) : Heap (Block α) := ⟨fun _ => none, []⟩

/-- Two elements pushed at either end, and one popped. -/
def threeCalls : List (Op ℕ) :=
  [.pushBack 10 11 ⟨⟨none, none⟩, 0⟩ 5, .pushFront 20 21 ⟨⟨none, none⟩, 0⟩ 6, .popCopyFront]

theorem queue_refines_list_three :
    ∃ s contents, Lts.run step threeCalls (initial (emptyHeap ℕ)) = some s ∧
      s.results = [.popped 6] ∧ contents = [5] ∧ Spells s.queue contents ∧ ClearsAll s.queue := by
  obtain ⟨s, hrun⟩ : ∃ s, Lts.run step threeCalls (initial (emptyHeap ℕ)) = some s :=
    ⟨_, rfl⟩
  obtain ⟨contents, hmodel, hspells, -, hclears⟩ := queue_refines_list _ _ s hrun
  obtain ⟨rfl, hresults⟩ : contents = [5] ∧ s.results = [.popped 6] := by
    have hpair := Option.some.inj hmodel
    exact ⟨(Prod.mk.inj hpair).1.symm, (Prod.mk.inj hpair).2.symm⟩
  exact ⟨s, [5], hrun, hresults, rfl, hspells, hclears⟩

end LinkedQueue

end PRShooter
