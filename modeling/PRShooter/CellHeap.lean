import PRShooter.Heap

/-!
# Memory as cells

`malloc`, `realloc` and `memcpy` on a heap whose blocks are lists of cells. A pointer is `none` for
`NULL`, which points to no cells: an allocation of size zero may return it, or an unused address.
How an allocation turns out is given to it, and `none` says that it cannot turn out so.
-/

namespace CellHeap

variable {β : Type*}

/-! ## Parts of a block -/

/-- A part of the cells. -/
def slice (cells : List β) (offset n : ℕ) : Option (List β) :=
  if offset + n ≤ cells.length then some ((cells.drop offset).take n) else none

/-- The cells with a part replaced. -/
def splice (cells : List β) (offset : ℕ) (part : List β) : Option (List β) :=
  if offset + part.length ≤ cells.length then
    some (cells.take offset ++ part ++ cells.drop (offset + part.length))
  else none

section Items

variable {items : List (List β)} {spare part : List β} {k i : ℕ}

theorem length_flatten_of_width (h : ∀ item ∈ items, item.length = k) :
    items.flatten.length = items.length * k := by
  rw [List.length_flatten, List.map_congr_left h, List.map_const', List.sum_replicate_nat]

/-- Items of one width, one after the other, are read back at the multiples of it. -/
theorem slice_flatten (h : ∀ item ∈ items, item.length = k) (hi : i < items.length) :
    slice (items.flatten ++ spare) (i * k) k = some items[i] := by
  induction items generalizing i with
  | nil => exact absurd hi (Nat.not_lt_zero i)
  | cons item items ih =>
    have hitem : item.length = k := h item List.mem_cons_self
    have hitems : ∀ other ∈ items, other.length = k := fun other hother =>
      h other (List.mem_cons_of_mem item hother)
    cases i with
    | zero =>
      unfold slice
      rw [if_pos (by simp [hitem]), Nat.zero_mul, List.drop_zero, List.flatten_cons,
        List.append_assoc, ← hitem, List.take_left, List.getElem_cons_zero]
    | succ i =>
      have hi' : i < items.length := by simpa using hi
      have hnext := ih hitems hi'
      unfold slice at hnext ⊢
      have hoffset : (i + 1) * k = item.length + i * k := by
        rw [hitem, Nat.succ_mul, Nat.add_comm]
      rw [hoffset, List.flatten_cons, List.append_assoc, List.drop_length_add_append,
        List.length_append, List.getElem_cons_succ, ← hnext]
      simp only [Nat.add_assoc, Nat.add_le_add_iff_left]

theorem slice_flatten_all (h : ∀ item ∈ items, item.length = k) :
    slice (items.flatten ++ spare) 0 (items.length * k) = some items.flatten := by
  unfold slice
  rw [← length_flatten_of_width h, if_pos (by simp), List.drop_zero, List.take_left]

/-- An item is put after the others where there is room. -/
theorem splice_flatten (h : ∀ item ∈ items, item.length = k) (hpart : part.length ≤ spare.length) :
    splice (items.flatten ++ spare) (items.length * k) part
      = some ((items ++ [part]).flatten ++ spare.drop part.length) := by
  unfold splice
  rw [← length_flatten_of_width h, if_pos (by simpa using hpart), List.take_left,
    List.drop_length_add_append, List.flatten_append, List.flatten_singleton]

theorem splice_zero (hpart : part.length ≤ spare.length) :
    splice spare 0 part = some (part ++ spare.drop part.length) := by
  unfold splice
  rw [if_pos (by simpa using hpart), Nat.zero_add, List.take_zero, List.nil_append]

theorem length_of_splice {cells cells' : List β} {offset : ℕ}
    (h : splice cells offset part = some cells') : cells'.length = cells.length := by
  unfold splice at h
  split_ifs at h with hfits
  obtain rfl := Option.some.inj h
  simp only [List.length_append, List.length_take, List.length_drop]
  omega

end Items

/-! ## Memory -/

/-- How an allocation turns out: the pointer it returns, and what is in new cells. -/
structure Alloc (β : Type*) where
  address : Option ℕ
  garbage : ℕ → β

/-- New cells. -/
def Alloc.cells (alloc : Alloc β) (n : ℕ) : List β := (List.range n).map alloc.garbage

/-- The cells a pointer points to. -/
def cellsAt (heap : Heap (List β)) : Option ℕ → Option (List β)
  | none => some []
  | some a => heap.block a

/-- `malloc`. -/
def malloc (heap : Heap (List β)) (n : ℕ) (alloc : Alloc β) : Option (Heap (List β)) :=
  match alloc.address with
  | none => if n = 0 then some heap else none
  | some a => heap.malloc a (alloc.cells n)

/-- `realloc`. The result is `none` where nothing is allocated at the pointer. The block stays where
it is or moves, and is freed with size zero and `NULL`. -/
def realloc (heap : Heap (List β)) (ptr : Option ℕ) (n : ℕ) (alloc : Alloc β) :
    Option (Option (Heap (List β))) :=
  match ptr with
  | none => (malloc heap n alloc).map some
  | some a =>
    match heap.block a with
    | none => some none
    | some cells =>
      match alloc.address with
      | none => if n = 0 then some (heap.free a) else none
      | some a' =>
        let cells := cells.take n ++ alloc.cells (n - cells.length)
        if a' = a then some (some (heap.set a cells))
        else (heap.malloc a' cells).map fun heap => heap.free a

/-- The source of a `memcpy`. -/
def readCells (heap : Heap (List β)) (ptr : Option ℕ) (offset n : ℕ) : Option (List β) :=
  (cellsAt heap ptr).bind fun cells => slice cells offset n

/-- Other cells at a pointer. -/
def store (heap : Heap (List β)) : Option ℕ → List β → Heap (List β)
  | none, _ => heap
  | some a, cells => heap.set a cells

/-- The destination of a `memcpy`. -/
def writeCells (heap : Heap (List β)) (ptr : Option ℕ) (offset : ℕ) (part : List β) :
    Option (Heap (List β)) := do
  let cells ← cellsAt heap ptr
  let cells ← splice cells offset part
  return store heap ptr cells

/-- A pointer and its cells are exchanged for others, and no other block is touched. -/
structure Updates (heap heap' : Heap (List β)) (ptr ptr' : Option ℕ) (cells : List β) : Prop where
  cells : cellsAt heap' ptr' = some cells
  fresh : ∀ p, ptr' = some p → ptr = some p ∨ heap.block p = none
  same : ∀ p, heap.block p ≠ none → ptr ≠ some p → heap'.block p = heap.block p

variable {heap heap' heap'' : Heap (List β)} {ptr ptr' ptr'' : Option ℕ}
  {cells cells' part : List β} {alloc : Alloc β} {n offset p : ℕ}

@[simp] theorem Alloc.length_cells : (alloc.cells n).length = n := by
  simp [Alloc.cells]

theorem Updates.trans (h : Updates heap heap' ptr ptr' cells)
    (h' : Updates heap' heap'' ptr' ptr'' cells') : Updates heap heap'' ptr ptr'' cells' := by
  refine ⟨h'.cells, fun p hp => ?_, fun p hp hne => ?_⟩
  · rcases h'.fresh p hp with hold | hnone
    · exact h.fresh p hold
    · by_cases hptr : ptr = some p
      · exact .inl hptr
      · refine .inr ?_
        by_contra hblock
        exact hblock ((h.same p hblock hptr).symm.trans hnone)
  · have hblock := h.same p hp hne
    have hne' : ptr' ≠ some p := by
      intro hptr
      rcases h.fresh p hptr with hold | hnone
      · exact hne hold
      · exact hp hnone
    rw [h'.same p (by rwa [hblock]) hne', hblock]

/-- Other cells in the same place. -/
theorem updates_set {a : ℕ} (cells : List β) :
    Updates heap (heap.set a cells) (some a) (some a) cells := by
  refine ⟨Heap.block_set_self, fun p hp => .inl hp, fun p _ hne => Heap.block_set_of_ne ?_⟩
  rintro rfl
  exact hne rfl

theorem updates_store (h : cellsAt heap ptr = some cells) (hlength : cells'.length = cells.length) :
    Updates heap (store heap ptr cells') ptr ptr cells' := by
  cases ptr with
  | none =>
    obtain rfl : [] = cells := Option.some.inj h
    rw [List.length_eq_zero_iff.mp hlength]
    exact ⟨rfl, fun p hp => .inl hp, fun p _ _ => rfl⟩
  | some a => exact updates_set cells'

theorem updates_writeCells (h : cellsAt heap ptr = some cells)
    (hpart : splice cells offset part = some cells') :
    ∃ heap', writeCells heap ptr offset part = some heap' ∧
      Updates heap heap' ptr ptr cells' := by
  refine ⟨store heap ptr cells', ?_, updates_store h (length_of_splice hpart)⟩
  unfold writeCells
  rw [h]
  simp only [bind, Option.bind_some, hpart]
  rfl

theorem updates_malloc_block {a : ℕ} (h : heap.malloc a cells = some heap') :
    Updates heap heap' none (some a) cells := by
  obtain ⟨hnone, rfl⟩ := Heap.malloc_eq_some.mp h
  refine ⟨Heap.block_set_self, fun p hp => ?_, fun p hp _ => Heap.block_set_of_ne ?_⟩
  · obtain rfl := Option.some.inj hp
    exact .inr hnone
  · rintro rfl
    exact hp hnone

theorem updates_malloc (h : malloc heap n alloc = some heap') :
    Updates heap heap' none alloc.address (alloc.cells n) ∧ (alloc.address = none → n = 0) := by
  unfold malloc at h
  split at h
  next haddress =>
    split_ifs at h with hn
    obtain rfl := Option.some.inj h
    subst hn
    rw [haddress]
    exact ⟨⟨rfl, fun p hp => .inl hp, fun p _ _ => rfl⟩, fun _ => rfl⟩
  next a haddress =>
    rw [haddress]
    exact ⟨updates_malloc_block h, by simp⟩

theorem updates_free {a : ℕ} (h : heap.block a ≠ none) :
    ∃ heap', heap.free a = some heap' ∧ Updates heap heap' (some a) none [] := by
  refine ⟨heap.without [a], Heap.free_eq_some.mpr ⟨h, rfl⟩, rfl, fun p hp => ?_, fun p _ hne => ?_⟩
  · cases hp
  · refine Heap.block_without_of_notMem fun hmem => hne ?_
    rw [List.mem_singleton.mp hmem]

/-- The cells are put into a new block before the old one is freed. -/
theorem updates_move {a a' : ℕ} (h : heap.block a ≠ none) (ha : a' ≠ a)
    (hmalloc : heap.malloc a' cells = some heap') :
    ∃ heap'', heap'.free a = some heap'' ∧ Updates heap heap'' (some a) (some a') cells := by
  have hnew := updates_malloc_block hmalloc
  have hold : heap'.block a ≠ none := by
    rw [hnew.same a h (by simp)]
    exact h
  obtain ⟨heap'', hfree, hfreed⟩ := updates_free hold
  refine ⟨heap'', hfree, ?_, fun p hp => ?_, fun p hp hne => ?_⟩
  · have hkept := hfreed.same a' (by rw [show heap'.block a' = _ from hnew.cells]; simp)
      (by simpa using Ne.symm ha)
    exact hkept.trans hnew.cells
  · exact .inr ((hnew.fresh p hp).resolve_left (by simp))
  · have hsame := hnew.same p hp (by simp)
    rw [hfreed.same p (by rwa [hsame]) hne, hsame]

theorem updates_realloc (h : cellsAt heap ptr = some cells) {r : Option (Heap (List β))}
    (hr : realloc heap ptr n alloc = some r) :
    (alloc.address = none → n = 0) ∧ ∃ heap', r = some heap' ∧
      Updates heap heap' ptr alloc.address (cells.take n ++ alloc.cells (n - cells.length)) := by
  cases ptr with
  | none =>
    obtain rfl : [] = cells := Option.some.inj h
    obtain ⟨heap', hmalloc, rfl⟩ := Option.map_eq_some_iff.mp hr
    obtain ⟨hup, hnull⟩ := updates_malloc hmalloc
    exact ⟨hnull, heap', rfl, by simpa using hup⟩
  | some a =>
    have hblock : heap.block a = some cells := h
    have hsome : heap.block a ≠ none := by simp [hblock]
    unfold realloc at hr
    simp only [hblock] at hr
    cases haddress : alloc.address with
    | none =>
      simp only [haddress] at hr
      split_ifs at hr with hn
      subst hn
      obtain rfl := Option.some.inj hr
      obtain ⟨heap', hfree, hup⟩ := updates_free hsome
      exact ⟨fun _ => rfl, heap', hfree, by simpa [Alloc.cells] using hup⟩
    | some a' =>
      simp only [haddress] at hr
      refine ⟨by simp, ?_⟩
      split_ifs at hr with ha
      · obtain rfl := Option.some.inj hr
        subst ha
        exact ⟨_, rfl, updates_set _⟩
      · obtain ⟨heap₁, hmalloc, rfl⟩ := Option.map_eq_some_iff.mp hr
        exact updates_move hsome ha hmalloc

end CellHeap
