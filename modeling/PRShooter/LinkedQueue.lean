import PRShooter.DoublyLinked
import PRShooter.Heap
import PRShooter.Lts
import PRShooter.ServerQueue

/-!
# The linked queue

`Server/server_queue.c` on a heap: nodes with their links and the address of their data, and blocks
of data. Each operation gets the addresses its calls of `malloc` return. `none` is a failed
assertion, or a use of memory that is not allocated.

The mutex is left out: the functions that lock it are taken as atomic, and `queueClear` is called
while no other thread uses the queue.
-/

namespace PRShooter

namespace LinkedQueue

open DoublyLinked

/-! ## Memory -/

/-- `QueueNode`. -/
structure QueueNode extends Links ℕ where
  data : ℕ

/-- A block of memory: a node, or an element. -/
inductive Block (α : Type) where
  | node (node : QueueNode)
  | data (element : α)

variable {α : Type}

/-- The node at an address. -/
def nodeAt (heap : Heap (Block α)) (a : ℕ) : Option QueueNode :=
  match heap.block a with
  | some (.node node) => some node
  | _ => none

/-- The element at an address. -/
def dataAt (heap : Heap (Block α)) (a : ℕ) : Option α :=
  match heap.block a with
  | some (.data element) => some element
  | _ => none

/-- A write to a member of a node. -/
def writeNode (heap : Heap (Block α)) (a : ℕ) (f : QueueNode → QueueNode) :
    Option (Heap (Block α)) :=
  (nodeAt heap a).map fun node => heap.set a (.node (f node))

/-! ## The functions -/

/-- A queue on its heap. -/
structure Queue (α : Type) where
  heap : Heap (Block α)
  first : Option ℕ
  last : Option ℕ

/-- `queueSyncCreate`. -/
def queueSyncCreate (heap : Heap (Block α)) : Queue α := ⟨heap, none, none⟩

/-- `createNewNode`: `garbage` is what the new node holds at first. -/
def createNewNode (newNode data : ℕ) (garbage : QueueNode) (element : α) (heap : Heap (Block α)) :
    Option (Heap (Block α)) := do
  let heap ← heap.malloc newNode (.node garbage)
  let heap ← heap.malloc data (.data element)
  let heap ← writeNode heap newNode fun node => { node with data }
  let heap ← writeNode heap newNode fun node => { node with previous := none }
  writeNode heap newNode fun node => { node with next := none }

/-- `queueSyncPushBack`. -/
def queueSyncPushBack (newNode data : ℕ) (garbage : QueueNode) (element : α) (queue : Queue α) :
    Option (Queue α) := do
  let heap ← createNewNode newNode data garbage element queue.heap
  let heap ← writeNode heap newNode fun node => { node with previous := queue.last }
  match queue.last with
  | none => return { heap, first := some newNode, last := some newNode }
  | some oldLast =>
    let heap ← writeNode heap oldLast fun node => { node with next := some newNode }
    return { heap, first := queue.first, last := some newNode }

/-- `queueSyncPushFront`. -/
def queueSyncPushFront (newNode data : ℕ) (garbage : QueueNode) (element : α) (queue : Queue α) :
    Option (Queue α) := do
  let heap ← createNewNode newNode data garbage element queue.heap
  let heap ← writeNode heap newNode fun node => { node with next := queue.first }
  match queue.first with
  | none => return { heap, first := some newNode, last := some newNode }
  | some oldFirst =>
    let heap ← writeNode heap oldFirst fun node => { node with previous := some newNode }
    return { heap, first := some newNode, last := queue.last }

/-- `popFrontNode`. -/
def popFrontNode (queue : Queue α) : Option (ℕ × Queue α) := do
  -- the assertion that the queue is not empty
  let popped ← queue.first
  let node ← nodeAt queue.heap popped
  let queue := { queue with first := node.next }
  if queue.last = some popped then return (popped, { queue with last := none })
  else
    let next ← node.next
    let heap ← writeNode queue.heap next fun node => { node with previous := none }
    return (popped, { queue with heap })

/-- `queueSyncPopFront`: the address of the data of the first node. -/
def queueSyncPopFront (queue : Queue α) : Option (ℕ × Queue α) := do
  let (front, queue) ← popFrontNode queue
  let node ← nodeAt queue.heap front
  let heap ← queue.heap.free front
  return (node.data, { queue with heap })

/-- `queueSyncPopCopyFront`: what is copied to `buf`. -/
def queueSyncPopCopyFront (queue : Queue α) : Option (α × Queue α) := do
  let (data, queue) ← queueSyncPopFront queue
  let element ← dataAt queue.heap data
  let heap ← queue.heap.free data
  return (element, { queue with heap })

/-- `queueSyncIsEmpty`. -/
def queueSyncIsEmpty (queue : Queue α) : Bool := queue.first.isNone

/-- The loop of `queueClear`, for at most this many turns. -/
def clearLoop : ℕ → Option ℕ → Heap (Block α) → Option (Heap (Block α))
  | _, none, heap => some heap
  | 0, some _, _ => none
  | turns + 1, some current, heap => do
    let node ← nodeAt heap current
    let heap ← heap.free node.data
    let heap ← heap.free current
    clearLoop turns node.next heap

/-- `queueClear`. -/
def queueClear (turns : ℕ) (queue : Queue α) : Option (Queue α) := do
  let heap ← clearLoop turns queue.first queue.heap
  return { heap, first := none, last := none }

/-! ## Runs -/

/-- A call of one of the functions, or of `free` on data that has been popped. -/
inductive Op (α : Type) where
  | pushBack (newNode data : ℕ) (garbage : QueueNode) (element : α)
  | pushFront (newNode data : ℕ) (garbage : QueueNode) (element : α)
  | popFront
  | popCopyFront
  | free (data : ℕ)
  | isEmpty
  | clear (turns : ℕ)

/-- What a call returns. -/
inductive Result (α : Type) where
  | popped (element : α)
  | isEmpty (empty : Bool)

/-- A queue, the data that has been popped and not freed, and what the calls have returned. -/
structure State (α : Type) where
  queue : Queue α
  popped : List ℕ
  results : List (Result α)

/-- One call. -/
def step (s : State α) : Op α → Option (State α)
  | .pushBack newNode data garbage element =>
    (queueSyncPushBack newNode data garbage element s.queue).map fun queue => { s with queue }
  | .pushFront newNode data garbage element =>
    (queueSyncPushFront newNode data garbage element s.queue).map fun queue => { s with queue }
  | .popFront => do
    let (data, queue) ← queueSyncPopFront s.queue
    let element ← dataAt queue.heap data
    return { queue, popped := s.popped ++ [data], results := s.results ++ [.popped element] }
  | .popCopyFront =>
    (queueSyncPopCopyFront s.queue).map fun (element, queue) =>
      { s with queue, results := s.results ++ [.popped element] }
  | .free data =>
    if data ∈ s.popped then
      (s.queue.heap.free data).map fun heap =>
        { s with queue := { s.queue with heap }, popped := s.popped.erase data }
    else none
  | .isEmpty => some { s with results := s.results ++ [.isEmpty (queueSyncIsEmpty s.queue)] }
  | .clear turns => (queueClear turns s.queue).map fun queue => { s with queue }

/-- The same call on the contents of the queue. -/
def modelStep (s : SynchronizedQueue α × List (Result α)) :
    Op α → Option (SynchronizedQueue α × List (Result α))
  | .pushBack _ _ _ element => some (PRShooter.queueSyncPushBack s.1 element, s.2)
  | .pushFront _ _ _ element => some (PRShooter.queueSyncPushFront s.1 element, s.2)
  | .popFront | .popCopyFront =>
    (PRShooter.queueSyncPopFront s.1).map fun (element, rest) => (rest, s.2 ++ [.popped element])
  | .free _ => some s
  | .isEmpty => some (s.1, s.2 ++ [.isEmpty (PRShooter.queueSyncIsEmpty s.1)])
  | .clear _ => some ([], s.2)

/-- A new queue on any heap. -/
def initial (heap : Heap (Block α)) : State α := ⟨queueSyncCreate heap, [], []⟩

/-- What the caller and `malloc` are to see to: new blocks are at unused addresses, nothing is popped
of an empty queue, only popped data is freed, and the loop of `queueClear` is given enough turns. -/
def Ready (s : State α) (contents : List α) : Op α → Prop
  | .pushBack newNode data _ _ | .pushFront newNode data _ _ =>
    s.queue.heap.block newNode = none ∧ s.queue.heap.block data = none ∧ newNode ≠ data
  | .popFront | .popCopyFront => contents ≠ []
  | .free data => data ∈ s.popped
  | .isEmpty => True
  | .clear turns => contents.length ≤ turns

/-- The links of the nodes. -/
def links (heap : Heap (Block α)) (a : ℕ) : Option (Links ℕ) :=
  (nodeAt heap a).map QueueNode.toLinks

/-- The element of a node. -/
def elementAt (heap : Heap (Block α)) (a : ℕ) : Option α :=
  (nodeAt heap a).bind fun node => dataAt heap node.data

/-- The next nodes from the first one on are nodes of the contents, the previous ones from the last
one on are the same backwards, and both ends are null if and only if there are no contents. -/
def Spells (queue : Queue α) (contents : List α) : Prop :=
  ∃ nodes : List ℕ, nodes.Nodup ∧
    Path (fun a => (links queue.heap a).map Links.next) queue.first nodes ∧
    Path (fun a => (links queue.heap a).map Links.previous) queue.last nodes.reverse ∧
    nodes.map (elementAt queue.heap) = contents.map some ∧
    (queue.first = none ↔ contents = []) ∧ (queue.last = none ↔ contents = [])

/-- `queueClear` returns, and has freed each node of the queue and its data once, and nothing else. -/
def ClearsAll (queue : Queue α) : Prop :=
  ∀ nodes : List ℕ, Path (fun a => (links queue.heap a).map Links.next) queue.first nodes →
    ∀ turns, nodes.length ≤ turns → ∃ blocks : List ℕ,
      queueClear turns queue = some ⟨queue.heap.without blocks, none, none⟩ ∧ blocks.Nodup ∧
      ∀ c, c ∈ blocks ↔
        c ∈ nodes ∨ ∃ a ∈ nodes, (nodeAt queue.heap a).map QueueNode.data = some c

/-! ## What is in memory -/

/-- A node of the queue: its address, that of its data, and the element there. -/
structure Item (α : Type) where
  node : ℕ
  data : ℕ
  element : α

/-- The node of the item and its element are where it says. -/
structure Stored (heap : Heap (Block α)) (i : Item α) : Prop where
  node : (nodeAt heap i.node).map QueueNode.data = some i.data
  data : dataAt heap i.data = some i.element

variable {heap heap' : Heap (Block α)} {a c d : ℕ} {x : α} {node : QueueNode} {i : Item α}

theorem nodeAt_eq_some : nodeAt heap a = some node ↔ heap.block a = some (.node node) := by
  unfold nodeAt
  split <;> simp_all

theorem dataAt_eq_some : dataAt heap a = some x ↔ heap.block a = some (.data x) := by
  unfold dataAt
  split <;> simp_all

theorem nodeAt_congr (h : heap'.block c = heap.block c) : nodeAt heap' c = nodeAt heap c := by
  unfold nodeAt
  rw [h]

theorem dataAt_congr (h : heap'.block c = heap.block c) : dataAt heap' c = dataAt heap c := by
  unfold dataAt
  rw [h]

theorem links_congr (h : heap'.block c = heap.block c) : links heap' c = links heap c := by
  unfold links
  rw [nodeAt_congr h]

theorem links_eq_some {l : Links ℕ} (h : links heap a = some l) :
    ∃ data, heap.block a = some (.node ⟨l, data⟩) := by
  obtain ⟨node, hnode, rfl⟩ := Option.map_eq_some_iff.mp h
  exact ⟨node.data, nodeAt_eq_some.mp hnode⟩

theorem links_of_block {l : Links ℕ} {data : ℕ} (h : heap.block a = some (.node ⟨l, data⟩)) :
    links heap a = some l := by
  unfold links
  rw [nodeAt_eq_some.mpr h]
  rfl

theorem links_set_self {l : Links ℕ} {data : ℕ} :
    links (heap.set a (.node ⟨l, data⟩)) a = some l := by
  have hblock : (heap.set a (.node ⟨l, data⟩)).block a = some (.node ⟨l, data⟩) := by simp
  exact links_of_block hblock

theorem links_set_of_ne {block : Block α} (h : c ≠ a) :
    links (heap.set a block) c = links heap c :=
  links_congr (Heap.block_set_of_ne h)

theorem writeNode_of_block (h : heap.block a = some (.node node)) (f : QueueNode → QueueNode) :
    writeNode heap a f = some (heap.set a (.node (f node))) := by
  unfold writeNode
  rw [nodeAt_eq_some.mpr h]
  rfl

theorem writeNode_set (f : QueueNode → QueueNode) :
    writeNode (heap.set a (.node node)) a f = some (heap.set a (.node (f node))) := by
  have hblock : (heap.set a (.node node)).block a = some (.node node) := by simp
  rw [writeNode_of_block hblock, Heap.set_set]

/-- No element and no node's data is lost: the nodes may have other links, and there may be more. -/
structure Extends (heap heap' : Heap (Block α)) : Prop where
  node : ∀ c node, heap.block c = some (.node node) →
    ∃ links, heap'.block c = some (.node ⟨links, node.data⟩)
  data : ∀ c x, heap.block c = some (.data x) → heap'.block c = some (.data x)

theorem Extends.trans {heap'' : Heap (Block α)} (h : Extends heap heap')
    (h' : Extends heap' heap'') : Extends heap heap'' where
  node c node hc := by
    obtain ⟨links, hlinks⟩ := h.node c node hc
    exact h'.node c ⟨links, node.data⟩ hlinks
  data c x hc := h'.data c x (h.data c x hc)

theorem extends_set_links (h : heap.block a = some (.node node)) (links : Links ℕ) :
    Extends heap (heap.set a (.node ⟨links, node.data⟩)) := by
  refine ⟨fun c other hc => ?_, fun c x hc => ?_⟩
  · rw [Heap.block_set]
    split_ifs with hca
    · subst hca
      rw [h] at hc
      obtain rfl := Block.node.inj (Option.some.inj hc)
      exact ⟨links, rfl⟩
    · exact ⟨other.toLinks, hc⟩
  · rw [Heap.block_set_of_ne, hc]
    rintro rfl
    rw [h] at hc
    cases hc

theorem Stored.extends (h : Stored heap i) (hext : Extends heap heap') :
    Stored heap' i := by
  obtain ⟨node, hnode, hdata⟩ := Option.map_eq_some_iff.mp h.node
  obtain ⟨links, hlinks⟩ := hext.node i.node node (nodeAt_eq_some.mp hnode)
  refine ⟨?_, dataAt_eq_some.mpr (hext.data i.data i.element (dataAt_eq_some.mp h.data))⟩
  rw [nodeAt_eq_some.mpr hlinks]
  exact congrArg some hdata

theorem Stored.block_node (h : Stored heap i) :
    ∃ l, heap.block i.node = some (.node ⟨l, i.data⟩) := by
  obtain ⟨node, hnode, hdata⟩ := Option.map_eq_some_iff.mp h.node
  exact ⟨node.toLinks, by rw [nodeAt_eq_some.mp hnode, ← hdata]⟩

theorem Stored.block_data (h : Stored heap i) : heap.block i.data = some (.data i.element) :=
  dataAt_eq_some.mp h.data

/-- A node is not where an element is. -/
theorem Stored.node_ne_of_dataAt (h : Stored heap i) (hd : dataAt heap d = some x) :
    i.node ≠ d := by
  rintro rfl
  obtain ⟨l, hl⟩ := h.block_node
  rw [dataAt_eq_some, hl] at hd
  cases hd

theorem Stored.without (h : Stored heap i) {as : List ℕ} (hnode : i.node ∉ as)
    (hdata : i.data ∉ as) : Stored (heap.without as) i := by
  refine ⟨?_, ?_⟩
  · rw [nodeAt_congr (Heap.block_without_of_notMem hnode), h.node]
  · rw [dataAt_congr (Heap.block_without_of_notMem hdata), h.data]

end LinkedQueue

end PRShooter
