import Mathlib.Order.Nat
import PRShooter.CellHeap
import PRShooter.Lts

/-!
# The growable array

`Server/server_array.c` on a heap of bytes. Each operation gets what its allocation turns out to be
and says how it ends: `none` if an allocation cannot turn out so, else a result or what ends the
program. Sizes are numbers, as if `size_t` were large enough, and the initializer of `arrayCreate`
is evaluated in the order it is written in.

`resize` to twice a capacity of zero leaves it at zero. So an array does as a list does exactly as
long as none that was made without capacity is pushed to (`array_refines_list_iff`).
-/

namespace PRShooter

namespace GrowableArray

open CellHeap

/-! ## The functions -/

/-- `Array`. -/
structure Array where
  size : ℕ
  elementSize : ℕ
  capacity : ℕ
  ptrArray : Option ℕ

/-- What ends the program. -/
inductive Failure where
  /-- The assertion of `getIndexAddress`. -/
  | assertion
  /-- The `exit(1)` of `resize`. -/
  | exit
  /-- A use of memory that is not allocated. -/
  | fault
  deriving DecidableEq

/-- An access to memory. -/
def access {α : Type} : Option α → Except Failure α
  | some a => .ok a
  | none => .error .fault

/-- `getIndexAddress`, as an offset into `ptr_array`. -/
def getIndexAddress (array : Array) (index : ℕ) : Except Failure ℕ :=
  if index < array.capacity then .ok (index * array.elementSize) else .error .assertion

/-- `arrayCreate`. -/
def arrayCreate (alloc : Alloc UInt8) (heap : Heap (List UInt8))
    (elementSize startingItemCapacity : ℕ) : Option (Array × Heap (List UInt8)) := do
  let heap ← malloc heap (elementSize * startingItemCapacity) alloc
  return (⟨0, elementSize, startingItemCapacity, alloc.address⟩, heap)

/-- `resize`. -/
def resize (alloc : Alloc UInt8) (heap : Heap (List UInt8)) (array : Array) (capacity : ℕ) :
    Option (Except Failure (Array × Heap (List UInt8))) :=
  if array.capacity > capacity then some (.ok (array, heap))
  else
    (realloc heap array.ptrArray (capacity * array.elementSize) alloc).map fun moved => do
      let heap ← access moved
      if alloc.address = none then throw .exit
      else return ({ array with ptrArray := alloc.address, capacity }, heap)

/-- `arrayPushBack` once there is room. -/
def putItem (item : List UInt8) (index : ℕ) (array : Array) (heap : Heap (List UInt8)) :
    Except Failure (ℕ × Array × Heap (List UInt8)) := do
  let offset ← getIndexAddress array index
  let heap ← access (writeCells heap array.ptrArray offset item)
  return (index, { array with size := array.size + 1 }, heap)

/-- `arrayPushBack`; the item has `element_size` bytes. -/
def arrayPushBack (alloc : Alloc UInt8) (heap : Heap (List UInt8)) (array : Array)
    (item : List UInt8) : Option (Except Failure (ℕ × Array × Heap (List UInt8))) :=
  let index := array.size
  if index ≥ array.capacity then
    (resize alloc heap array (array.capacity * 2)).map fun resized =>
      resized.bind fun (array, heap) => putItem item index array heap
  else some (putItem item index array heap)

/-- `arrayGetItem`: what is copied to `buf`. -/
def arrayGetItem (heap : Heap (List UInt8)) (array : Array) (index : ℕ) :
    Except Failure (List UInt8) := do
  let offset ← getIndexAddress array index
  access (readCells heap array.ptrArray offset array.elementSize)

/-- `arrayClear`. -/
def arrayClear (array : Array) : Array := { array with size := 0 }

/-- `arrayGetCopy`. -/
def arrayGetCopy (alloc : Alloc UInt8) (heap : Heap (List UInt8)) (array : Array) :
    Option (Except Failure (Array × Heap (List UInt8))) := do
  let (newArray, heap) ← arrayCreate alloc heap array.elementSize array.size
  let newArray := { newArray with size := array.size }
  return do
    let bytes ← access (readCells heap array.ptrArray 0 (array.size * array.elementSize))
    let heap ← access (writeCells heap newArray.ptrArray 0 bytes)
    return (newArray, heap)

/-! ## Runs -/

/-- A call of one of the functions, on the array with this number. -/
inductive Op where
  | create (elementSize startingItemCapacity : ℕ) (alloc : Alloc UInt8)
  | getCopy (i : ℕ) (alloc : Alloc UInt8)
  | pushBack (i : ℕ) (item : List UInt8) (alloc : Alloc UInt8)
  | clear (i : ℕ)
  | getItem (i index : ℕ)

/-- What a call returns. -/
inductive Result where
  | index (index : ℕ)
  | item (bytes : List UInt8)
  deriving DecidableEq

/-- The arrays there are, what the calls have returned, and what has ended the program. -/
structure State where
  heap : Heap (List UInt8)
  arrays : List Array
  results : List Result
  failure : Option Failure

/-- The state after a call that may end the program. -/
def State.after {α : Type} (s : State) (f : α → State) : Except Failure α → State
  | .ok a => f a
  | .error failure => { s with failure := some failure }

/-- One call, with an item of the size of the elements and an index below the size. -/
def step (s : State) (op : Op) : Option State :=
  if s.failure ≠ none then none
  else
    match op with
    | .create elementSize startingItemCapacity alloc =>
      (arrayCreate alloc s.heap elementSize startingItemCapacity).map fun (array, heap) =>
        { s with heap, arrays := s.arrays ++ [array] }
    | .getCopy i alloc => do
      let array ← s.arrays[i]?
      (arrayGetCopy alloc s.heap array).map (s.after fun (copy, heap) =>
        { s with heap, arrays := s.arrays ++ [copy] })
    | .pushBack i item alloc => do
      let array ← s.arrays[i]?
      if item.length = array.elementSize then
        (arrayPushBack alloc s.heap array item).map (s.after fun (index, array, heap) =>
          { s with
            heap, arrays := s.arrays.set i array, results := s.results ++ [.index index] })
      else none
    | .clear i => do
      let array ← s.arrays[i]?
      return { s with arrays := s.arrays.set i (arrayClear array) }
    | .getItem i index => do
      let array ← s.arrays[i]?
      if index < array.size then
        some (s.after (fun item => { s with results := s.results ++ [.item item] })
          (arrayGetItem s.heap array index))
      else none

/-- The same call on lists of items. -/
def modelStep (s : List (List (List UInt8)) × List Result) :
    Op → Option (List (List (List UInt8)) × List Result)
  | .create _ _ _ => some (s.1 ++ [[]], s.2)
  | .getCopy i _ => s.1[i]?.map fun items => (s.1 ++ [items], s.2)
  | .pushBack i item _ =>
    s.1[i]?.map fun items => (s.1.set i (items ++ [item]), s.2 ++ [.index items.length])
  | .clear i => s.1[i]?.map fun _ => (s.1.set i [], s.2)
  | .getItem i index => do
    let items ← s.1[i]?
    let item ← items[index]?
    return (s.1, s.2 ++ [.item item])

/-- No arrays, on any heap. -/
def initial (heap : Heap (List UInt8)) : State := ⟨heap, [], [], none⟩

/-- An array reads as a list of items. -/
structure Reads (heap : Heap (List UInt8)) (array : Array) (items : List (List UInt8)) : Prop where
  size : array.size = items.length
  fits : array.size ≤ array.capacity
  getItem : ∀ index (h : index < items.length), arrayGetItem heap array index = .ok items[index]

/-- The program is running, the calls have returned what they return on lists, and each array reads
as its list. -/
def Refines (ops : List Op) (s : State) : Prop :=
  s.failure = none ∧ ∃ contents, Lts.run modelStep ops ([], []) = some (contents, s.results) ∧
    s.arrays.length = contents.length ∧
    ∀ (i : ℕ) array items, s.arrays[i]? = some array → contents[i]? = some items →
      Reads s.heap array items

/-- There is room, or twice the capacity makes room: it is not zero, and neither is the size of the
elements, unless an allocation of size zero returns a pointer. -/
def HasRoom (array : Array) (alloc : Alloc UInt8) : Prop :=
  array.size < array.capacity ∨
    0 < array.capacity ∧ (0 < array.elementSize ∨ alloc.address ≠ none)

/-- An array that is pushed to has room. -/
def Grows (s : State) : Op → Prop
  | .pushBack i _ alloc => ∀ array ∈ s.arrays[i]?, HasRoom array alloc
  | _ => True

instance (array : Array) (alloc : Alloc UInt8) : Decidable (HasRoom array alloc) :=
  inferInstanceAs (Decidable (_ ∨ _))

instance (s : State) (op : Op) : Decidable (Grows s op) :=
  match op with
  | .pushBack i _ alloc =>
    inferInstanceAs (Decidable (∀ array ∈ s.arrays[i]?, HasRoom array alloc))
  | .create .. | .getCopy .. | .clear _ | .getItem .. => inferInstanceAs (Decidable True)

/-! ## Arrays and lists -/

/-- The first bytes of the memory of an array are its items. -/
structure Holds (heap : Heap (List UInt8)) (array : Array) (items : List (List UInt8)) :
    Prop where
  size : array.size = items.length
  fits : items.length ≤ array.capacity
  widths : ∀ item ∈ items, item.length = array.elementSize
  memory : ∃ spare, cellsAt heap array.ptrArray = some (items.flatten ++ spare) ∧
    (items.flatten ++ spare).length = array.capacity * array.elementSize

variable {heap heap' : Heap (List UInt8)} {array array' : Array} {items items' : List (List UInt8)}
  {item cells : List UInt8} {alloc : Alloc UInt8} {capacity elementSize i index : ℕ}
  {r : Except Failure (Array × Heap (List UInt8))}

theorem Holds.reads (h : Holds heap array items) : Reads heap array items := by
  refine ⟨h.size, h.size.le.trans h.fits, fun index hindex => ?_⟩
  obtain ⟨spare, hcells, -⟩ := h.memory
  unfold arrayGetItem getIndexAddress readCells
  rw [if_pos (hindex.trans_le h.fits), hcells]
  simp only [Option.bind_some, bind, Except.bind]
  rw [slice_flatten h.widths hindex]
  rfl

theorem Holds.clear (h : Holds heap array items) : Holds heap (arrayClear array) [] := by
  obtain ⟨spare, hcells, hlength⟩ := h.memory
  exact ⟨rfl, Nat.zero_le _, by simp, items.flatten ++ spare, hcells, hlength⟩

/-- Other blocks do not matter. -/
theorem Holds.congr (h : Holds heap array items)
    (hsame : ∀ p, array.ptrArray = some p → heap'.block p = heap.block p) :
    Holds heap' array items := by
  obtain ⟨spare, hcells, hlength⟩ := h.memory
  refine ⟨h.size, h.fits, h.widths, spare, ?_, hlength⟩
  rw [← hcells]
  cases hptr : array.ptrArray with
  | none => rfl
  | some p => exact hsame p hptr

/-- The memory of an array is allocated. -/
theorem Holds.allocated (h : Holds heap array items) {p : ℕ} (hp : array.ptrArray = some p) :
    heap.block p ≠ none := by
  obtain ⟨spare, hcells, -⟩ := h.memory
  rw [hp] at hcells
  show cellsAt heap (some p) ≠ none
  rw [hcells]
  exact Option.some_ne_none _

theorem holds_arrayCreate
    (h : arrayCreate alloc heap elementSize capacity = some (array, heap')) :
    Holds heap' array [] ∧ Updates heap heap' none array.ptrArray
        (alloc.cells (elementSize * capacity)) ∧
      array.elementSize = elementSize ∧ array.capacity = capacity := by
  obtain ⟨heap₁, hmalloc, hpair⟩ := Option.bind_eq_some_iff.mp h
  obtain ⟨rfl, rfl⟩ := Prod.mk.inj (Option.some.inj hpair)
  obtain ⟨hup, -⟩ := updates_malloc hmalloc
  refine ⟨⟨rfl, Nat.zero_le _, by simp, alloc.cells (elementSize * capacity), hup.cells, ?_⟩, hup,
    rfl, rfl⟩
  simp [Nat.mul_comm]

/-- With room an item is put after the others. -/
theorem Holds.putItem (h : Holds heap array items) (hroom : array.size < array.capacity)
    (hitem : item.length = array.elementSize) :
    ∃ heap' cells, putItem item array.size array heap
        = .ok (items.length, { array with size := array.size + 1 }, heap') ∧
      Holds heap' { array with size := array.size + 1 } (items ++ [item]) ∧
      Updates heap heap' array.ptrArray array.ptrArray cells := by
  obtain ⟨spare, hcells, hlength⟩ := h.memory
  have hflat := length_flatten_of_width h.widths
  -- the bytes that are left hold at least one more item
  have hspare : item.length ≤ spare.length := by
    have hmore : (items.length + 1) * array.elementSize ≤ array.capacity * array.elementSize :=
      Nat.mul_le_mul_right _ (by rw [← h.size]; exact hroom)
    rw [List.length_append, hflat] at hlength
    rw [Nat.succ_mul] at hmore
    omega
  have hsplice := splice_flatten h.widths hspare
  obtain ⟨heap', hwrite, hup⟩ := updates_writeCells hcells hsplice
  refine ⟨heap', _, ?_, ⟨?_, ?_, ?_, spare.drop item.length, hup.cells, ?_⟩, hup⟩
  · unfold GrowableArray.putItem getIndexAddress
    rw [if_pos hroom, h.size]
    simp only [bind, Except.bind, hwrite]
    rfl
  · rw [List.length_append, ← h.size]
    rfl
  · rw [List.length_append, ← h.size]
    exact hroom
  · intro other hother
    rcases List.mem_append.mp hother with hold | hnew
    · exact h.widths other hold
    · rw [List.mem_singleton.mp hnew]
      exact hitem
  · rw [length_of_splice hsplice, hlength]

/-- Growing keeps the items, and fails if and only if `realloc` returns `NULL`. -/
theorem Holds.resize (h : Holds heap array items) (hcapacity : array.capacity ≤ capacity)
    (hr : resize alloc heap array capacity = some r) :
    (alloc.address = none → capacity * array.elementSize = 0 ∧ r = .error .exit) ∧
    (alloc.address ≠ none → ∃ heap' cells,
      r = .ok ({ array with ptrArray := alloc.address, capacity }, heap') ∧
      Holds heap' { array with ptrArray := alloc.address, capacity } items ∧
      Updates heap heap' array.ptrArray alloc.address cells) := by
  obtain ⟨spare, hcells, hlength⟩ := h.memory
  unfold GrowableArray.resize at hr
  rw [if_neg hcapacity.not_gt] at hr
  obtain ⟨moved, hrealloc, rfl⟩ := Option.map_eq_some_iff.mp hr
  obtain ⟨hnull, heap', rfl, hup⟩ := updates_realloc hcells hrealloc
  constructor
  · intro haddress
    refine ⟨hnull haddress, ?_⟩
    simp only [access, bind, Except.bind, if_pos haddress]
    rfl
  · intro haddress
    refine ⟨heap', _, ?_, ⟨h.size, h.fits.trans hcapacity, h.widths, ?_⟩, hup⟩
    · simp only [access, bind, Except.bind, if_neg haddress]
      rfl
    · -- nothing of the old block is cut off
      have hkept : (items.flatten ++ spare).length ≤ capacity * array.elementSize := by
        rw [hlength]
        exact Nat.mul_le_mul_right _ hcapacity
      have hcells' := hup.cells
      rw [List.take_of_length_le hkept, List.append_assoc] at hcells'
      refine ⟨_, hcells', ?_⟩
      rw [← List.append_assoc, List.length_append, Alloc.length_cells]
      exact Nat.add_sub_cancel' hkept

/-- A push returns the old length where there is room, and ends the program elsewhere. -/
theorem Holds.pushBack (h : Holds heap array items) (hitem : item.length = array.elementSize)
    {r : Except Failure (ℕ × Array × Heap (List UInt8))}
    (hr : arrayPushBack alloc heap array item = some r) :
    (HasRoom array alloc → ∃ array' heap' cells, r = .ok (items.length, array', heap') ∧
      Holds heap' array' (items ++ [item]) ∧
      Updates heap heap' array.ptrArray array'.ptrArray cells) ∧
    (¬ HasRoom array alloc → ∃ failure, r = .error failure) := by
  unfold arrayPushBack at hr
  by_cases hroom : array.size < array.capacity
  · rw [if_neg hroom.not_ge] at hr
    obtain rfl := Option.some.inj hr
    obtain ⟨heap', cells, hput, hholds, hup⟩ := h.putItem hroom hitem
    exact ⟨fun _ => ⟨_, heap', cells, hput, hholds, hup⟩, fun hno => absurd (.inl hroom) hno⟩
  · rw [if_pos (by omega)] at hr
    obtain ⟨resized, hresize, rfl⟩ := Option.map_eq_some_iff.mp hr
    obtain ⟨hnull, hmoved⟩ := h.resize (Nat.le_mul_of_pos_right _ Nat.two_pos) hresize
    by_cases haddress : alloc.address = none
    · -- no memory is asked for
      obtain ⟨hzero, rfl⟩ := hnull haddress
      refine ⟨fun hyes => ?_, fun _ => ⟨.exit, rfl⟩⟩
      rcases hyes with hlt | ⟨hcapacity, helement | haddress'⟩
      · exact absurd hlt hroom
      · have hpos := Nat.mul_pos (Nat.mul_pos hcapacity Nat.two_pos) helement
        omega
      · exact absurd haddress haddress'
    · obtain ⟨heap₁, cells₁, rfl, hholds₁, hup₁⟩ := hmoved haddress
      have hfits := h.fits
      rw [← h.size] at hfits
      refine ⟨fun hyes => ?_, fun hno => ⟨.assertion, ?_⟩⟩
      · have hcapacity : 0 < array.capacity := by
          rcases hyes with hlt | ⟨hcapacity, -⟩
          · exact absurd hlt hroom
          · exact hcapacity
        have hroom₁ : array.size < array.capacity * 2 := by omega
        obtain ⟨heap', cells, hput, hholds, hup⟩ := hholds₁.putItem hroom₁ hitem
        exact ⟨_, heap', cells, hput, hholds, hup₁.trans hup⟩
      · -- the capacity is zero, and twice that
        have hcapacity : array.capacity = 0 := by
          by_contra hne
          exact hno (.inr ⟨by omega, .inr haddress⟩)
        have hfull : ¬ array.size < array.capacity * 2 := by omega
        show GrowableArray.putItem item array.size _ heap₁ = _
        unfold GrowableArray.putItem getIndexAddress
        rw [if_neg hfull]
        rfl

/-- A copy has the items of the array, and memory of its own. -/
theorem Holds.getCopy (h : Holds heap array items)
    (hr : arrayGetCopy alloc heap array = some r) :
    ∃ copy heap' cells, r = .ok (copy, heap') ∧ Holds heap' copy items ∧
      Updates heap heap' none copy.ptrArray cells := by
  obtain ⟨spare, hcells, -⟩ := h.memory
  obtain ⟨⟨copy, heap₁⟩, hcreate, hrest⟩ := Option.bind_eq_some_iff.mp hr
  obtain ⟨hnew, hup, helement, hcapacity⟩ := holds_arrayCreate hcreate
  obtain rfl := Option.some.inj hrest
  have hlength : (alloc.cells (array.elementSize * array.size)).length = items.flatten.length := by
    rw [Alloc.length_cells, length_flatten_of_width h.widths, h.size, Nat.mul_comm]
  -- the block that is copied is not the new one
  have hread : readCells heap₁ array.ptrArray 0 (array.size * array.elementSize)
      = some items.flatten := by
    obtain ⟨spare', hcells', -⟩ := (h.congr fun p hp =>
      hup.same p (h.allocated hp) (Option.some_ne_none p).symm).memory
    unfold readCells
    rw [hcells', Option.bind_some, h.size, slice_flatten_all h.widths]
  have hsplice := splice_zero hlength.ge
  obtain ⟨heap₂, hwrite, hup'⟩ := updates_writeCells hup.cells hsplice
  refine ⟨{ copy with size := array.size }, heap₂, _, ?_, ⟨h.size, ?_, ?_, _, hup'.cells, ?_⟩,
    hup.trans hup'⟩
  · simp only [hread, access, bind, Except.bind, hwrite]
    rfl
  · rw [hcapacity, h.size]
  · intro item hitem
    rw [helement]
    exact h.widths item hitem
  · rw [length_of_splice hsplice, Alloc.length_cells, hcapacity, helement, Nat.mul_comm]

/-! ## All arrays -/

/-- The memory of the array with a number. -/
def pointer (arrays : List Array) (i : ℕ) : Option ℕ := arrays[i]?.bind Array.ptrArray

/-- Each array holds its list, in memory of its own. -/
structure AllHold (heap : Heap (List UInt8)) (arrays : List Array)
    (contents : List (List (List UInt8))) : Prop where
  length : arrays.length = contents.length
  holds : ∀ (i : ℕ) array items, arrays[i]? = some array → contents[i]? = some items →
    Holds heap array items
  distinct : ∀ i j p, pointer arrays i = some p → pointer arrays j = some p → i = j

variable {arrays : List Array} {contents : List (List (List UInt8))}

theorem AllHold.get (h : AllHold heap arrays contents) (hi : arrays[i]? = some array) :
    ∃ items, contents[i]? = some items ∧ Holds heap array items := by
  obtain ⟨hlt, -⟩ := List.getElem?_eq_some_iff.mp hi
  rw [h.length] at hlt
  have hget := List.getElem?_eq_getElem hlt
  exact ⟨_, hget, h.holds i array _ hi hget⟩

theorem AllHold.allocated (h : AllHold heap arrays contents) {p : ℕ}
    (hp : pointer arrays i = some p) : heap.block p ≠ none := by
  obtain ⟨array, hi, hptr⟩ := Option.bind_eq_some_iff.mp hp
  obtain ⟨items, -, hholds⟩ := h.get hi
  exact hholds.allocated hptr

theorem pointer_of_getElem? (hi : arrays[i]? = some array) :
    pointer arrays i = array.ptrArray := by
  unfold pointer
  rw [hi, Option.bind_some]

/-- One array or a new one gets other memory and another list. -/
theorem AllHold.update {arrays' : List Array} {contents' : List (List (List UInt8))}
    (h : AllHold heap arrays contents)
    (hup : Updates heap heap' (pointer arrays i) array'.ptrArray cells)
    (hholds : Holds heap' array' items') (hlength : arrays'.length = contents'.length)
    (hself : arrays'[i]? = some array' ∧ contents'[i]? = some items')
    (hother : ∀ j, j ≠ i → arrays'[j]? = arrays[j]? ∧ contents'[j]? = contents[j]?) :
    AllHold heap' arrays' contents' := by
  have hpointer : ∀ j, j ≠ i → pointer arrays' j = pointer arrays j := by
    intro j hj
    unfold pointer
    rw [(hother j hj).1]
  -- the new memory is not that of another array
  have hapart : ∀ j p, j ≠ i → pointer arrays' i = some p → pointer arrays' j ≠ some p := by
    intro j p hj hi hjp
    rw [pointer_of_getElem? hself.1] at hi
    rw [hpointer j hj] at hjp
    rcases hup.fresh p hi with hold | hnone
    · exact hj (h.distinct j i p hjp hold)
    · exact h.allocated hjp hnone
  refine ⟨hlength, fun j array items hj hitems => ?_, fun j k p hj hk => ?_⟩
  · by_cases hji : j = i
    · rw [hji] at hj hitems
      obtain rfl := Option.some.inj (hself.1.symm.trans hj)
      obtain rfl := Option.some.inj (hself.2.symm.trans hitems)
      exact hholds
    · rw [(hother j hji).1] at hj
      rw [(hother j hji).2] at hitems
      refine (h.holds j array items hj hitems).congr fun p hp => ?_
      have hjp : pointer arrays j = some p := (pointer_of_getElem? hj).trans hp
      exact hup.same p (h.allocated hjp) fun hold => hji (h.distinct j i p hjp hold)
  · by_cases hji : j = i
    · by_cases hki : k = i
      · rw [hji, hki]
      · rw [hji] at hj
        exact absurd hk (hapart k p hki hj)
    · by_cases hki : k = i
      · rw [hki] at hk
        exact absurd hj (hapart j p hji hk)
      · rw [hpointer j hji] at hj
        rw [hpointer k hki] at hk
        exact h.distinct j k p hj hk

theorem AllHold.set (h : AllHold heap arrays contents) (hi : arrays[i]? = some array)
    (hup : Updates heap heap' array.ptrArray array'.ptrArray cells)
    (hholds : Holds heap' array' items') :
    AllHold heap' (arrays.set i array') (contents.set i items') := by
  obtain ⟨hlt, -⟩ := List.getElem?_eq_some_iff.mp hi
  rw [← pointer_of_getElem? hi] at hup
  refine h.update hup hholds (by rw [List.length_set, List.length_set, h.length]) ⟨?_, ?_⟩
    fun j hj => ⟨List.getElem?_set_ne hj.symm, List.getElem?_set_ne hj.symm⟩
  · exact List.getElem?_set_self hlt
  · exact List.getElem?_set_self (h.length ▸ hlt)

theorem AllHold.append (h : AllHold heap arrays contents)
    (hup : Updates heap heap' none array'.ptrArray cells) (hholds : Holds heap' array' items') :
    AllHold heap' (arrays ++ [array']) (contents ++ [items']) := by
  have hnone : pointer arrays arrays.length = none := by
    unfold pointer
    rw [List.getElem?_eq_none le_rfl, Option.bind_none]
  have hafter : ∀ {α : Type} (as : List α) (a : α) (j : ℕ), j ≠ as.length →
      (as ++ [a])[j]? = as[j]? := by
    intro α as a j hj
    rw [List.getElem?_append]
    split_ifs with hlt
    · rfl
    · rw [List.getElem?_eq_none (by simp; omega), List.getElem?_eq_none (by omega)]
  rw [← hnone] at hup
  refine h.update hup hholds (by simp [h.length]) ⟨?_, ?_⟩
    fun j hj => ⟨hafter _ _ j hj, hafter _ _ j (h.length ▸ hj)⟩
  · exact List.getElem?_concat_length
  · rw [h.length]
    exact List.getElem?_concat_length

/-! ## Calls -/

variable {s t : State} {op : Op} {ops : List Op}

/-- What the step of a call leads to: the same on lists if the array it pushes to can grow, and the
end of the program if not. -/
def Outcome (s t : State) (contents : List (List (List UInt8))) (op : Op) : Prop :=
  (Grows s op → t.failure = none ∧ ∃ contents',
    modelStep (contents, s.results) op = some (contents', t.results) ∧
      AllHold t.heap t.arrays contents') ∧
  (¬ Grows s op → t.failure ≠ none)

theorem outcome_of_step (h : AllHold s.heap s.arrays contents) (hstep : step s op = some t) :
    Outcome s t contents op := by
  unfold step at hstep
  by_cases hfailure : s.failure = none
  swap
  · rw [if_pos hfailure] at hstep
    cases hstep
  rw [if_neg (not_not.mpr hfailure)] at hstep
  cases op with
  | create elementSize capacity alloc =>
    obtain ⟨⟨array, heap⟩, hcreate, rfl⟩ := Option.map_eq_some_iff.mp hstep
    obtain ⟨hholds, hup, -⟩ := holds_arrayCreate hcreate
    exact ⟨fun _ => ⟨hfailure, _, rfl, h.append hup hholds⟩, fun hno => absurd trivial hno⟩
  | getCopy i alloc =>
    obtain ⟨array, hi, hcopy⟩ := Option.bind_eq_some_iff.mp hstep
    obtain ⟨r, hr, rfl⟩ := Option.map_eq_some_iff.mp hcopy
    obtain ⟨items, hitems, hholds⟩ := h.get hi
    obtain ⟨copy, heap', cells, rfl, hholds', hup⟩ := hholds.getCopy hr
    refine ⟨fun _ => ⟨hfailure, _, ?_, h.append hup hholds'⟩, fun hno => absurd trivial hno⟩
    exact congrArg (Option.map _) hitems
  | pushBack i item alloc =>
    obtain ⟨array, hi, hpush⟩ := Option.bind_eq_some_iff.mp hstep
    split_ifs at hpush with hitem
    obtain ⟨r, hr, rfl⟩ := Option.map_eq_some_iff.mp hpush
    obtain ⟨items, hitems, hholds⟩ := h.get hi
    obtain ⟨hyes, hno⟩ := hholds.pushBack hitem hr
    have hgrows : Grows s (.pushBack i item alloc) ↔ HasRoom array alloc := by
      show (∀ array ∈ s.arrays[i]?, HasRoom array alloc) ↔ _
      rw [hi]
      simp
    refine ⟨fun hroom => ?_, fun hfull => ?_⟩
    · obtain ⟨array', heap', cells, rfl, hholds', hup⟩ := hyes (hgrows.mp hroom)
      refine ⟨hfailure, _, ?_, h.set hi hup hholds'⟩
      exact congrArg (Option.map _) hitems
    · obtain ⟨failure, rfl⟩ := hno fun hroom => hfull (hgrows.mpr hroom)
      exact Option.some_ne_none failure
  | clear i =>
    obtain ⟨array, hi, hclear⟩ := Option.bind_eq_some_iff.mp hstep
    obtain rfl := Option.some.inj hclear
    obtain ⟨items, hitems, hholds⟩ := h.get hi
    obtain ⟨spare, hcells, -⟩ := hholds.memory
    have hup : Updates s.heap s.heap array.ptrArray (arrayClear array).ptrArray _ :=
      ⟨hcells, fun p hp => .inl hp, fun p _ _ => rfl⟩
    refine ⟨fun _ => ⟨hfailure, _, ?_, h.set hi hup hholds.clear⟩, fun hno => absurd trivial hno⟩
    exact congrArg (Option.map _) hitems
  | getItem i index =>
    obtain ⟨array, hi, hget⟩ := Option.bind_eq_some_iff.mp hstep
    split_ifs at hget with hindex
    obtain rfl := Option.some.inj hget
    obtain ⟨items, hitems, hholds⟩ := h.get hi
    rw [hholds.size] at hindex
    rw [hholds.reads.getItem index hindex]
    refine ⟨fun _ => ⟨hfailure, contents, ?_, h⟩, fun hno => absurd trivial hno⟩
    show contents[i]?.bind _ = _
    rw [hitems, Option.bind_some, List.getElem?_eq_getElem hindex]
    rfl

/-- There are no calls after the end of the program. -/
theorem run_of_failure (h : s.failure ≠ none) (hrun : Lts.run step ops s = some t) : s = t := by
  cases ops with
  | nil => simpa using hrun
  | cons op ops =>
    obtain ⟨u, hstep, -⟩ := Option.bind_eq_some_iff.mp hrun
    unfold step at hstep
    rw [if_pos h] at hstep
    cases hstep

theorem outcome_of_run (h : AllHold s.heap s.arrays contents) (hs : s.failure = none)
    (hrun : Lts.run step ops s = some t) :
    (Lts.Along step Grows ops s → t.failure = none ∧ ∃ contents',
      Lts.run modelStep ops (contents, s.results) = some (contents', t.results) ∧
        AllHold t.heap t.arrays contents') ∧
    (¬ Lts.Along step Grows ops s → t.failure ≠ none) := by
  induction ops generalizing s contents with
  | nil =>
    obtain rfl : s = t := by simpa using hrun
    exact ⟨fun _ => ⟨hs, contents, rfl, h⟩, fun hno => absurd trivial hno⟩
  | cons op ops ih =>
    obtain ⟨u, hstep, hrest⟩ := Option.bind_eq_some_iff.mp hrun
    obtain ⟨hyes, hno⟩ := outcome_of_step h hstep
    by_cases hgrows : Grows s op
    · obtain ⟨hu, contents₁, hmodel₁, hhold₁⟩ := hyes hgrows
      obtain ⟨hyes₁, hno₁⟩ := ih hhold₁ hu hrest
      refine ⟨fun halong => ?_, fun hnot => ?_⟩
      · obtain ⟨ht, contents', hmodel, hhold⟩ := hyes₁ (halong.2 u hstep)
        refine ⟨ht, contents', ?_, hhold⟩
        rw [Lts.run_cons, hmodel₁, Option.bind_some, hmodel]
      · exact hno₁ fun halong => hnot (Lts.Along.cons hstep hgrows halong)
    · obtain rfl := run_of_failure (hno hgrows) hrest
      exact ⟨fun halong => absurd halong.1 hgrows, fun _ => hno hgrows⟩

theorem allHold_initial (heap : Heap (List UInt8)) : AllHold heap [] [] :=
  ⟨rfl, fun i array items hi => by simp at hi, fun i j p hi => by simp [pointer] at hi⟩

/-- **The growable array is a list where it can grow.** In a run from no arrays on, the program is
still running, every call has returned what it returns on lists, and every array reads as its list,
if and only if every array that was pushed to had room. -/
theorem array_refines_list_iff (heap : Heap (List UInt8)) (ops : List Op) (s : State)
    (h : Lts.run step ops (initial heap) = some s) :
    Refines ops s ↔ Lts.Along step Grows ops (initial heap) := by
  obtain ⟨hyes, hno⟩ := outcome_of_run (allHold_initial heap) rfl h
  constructor
  · rintro ⟨hrunning, -⟩
    by_contra hnot
    exact hno hnot hrunning
  · intro halong
    obtain ⟨hrunning, contents, hmodel, hhold⟩ := hyes halong
    exact ⟨hrunning, contents, hmodel, hhold.length, fun i array items hi hitems =>
      (hhold.holds i array items hi hitems).reads⟩

/-- A heap without blocks. -/
def emptyHeap : Heap (List UInt8) := ⟨fun _ => none, []⟩

/-- Memory at an address, filled with a byte. -/
def allocAt (a : ℕ) (byte : UInt8) : Alloc UInt8 := ⟨some a, fun _ => byte⟩

/-- `NULL`. -/
def allocNull : Alloc UInt8 := ⟨none, fun _ => 0⟩

/-- A push with room, a copy, a push that grows the array, and the item of the copy. -/
def growingCalls : List Op :=
  [.create 2 1 (allocAt 16 0), .pushBack 0 [1, 2] allocNull, .getCopy 0 (allocAt 32 7),
    .pushBack 0 [3, 4] (allocAt 48 9), .getItem 0 1, .getItem 1 0]

theorem array_refines_list_iff_growing :
    ∃ s, Lts.run step growingCalls (initial emptyHeap) = some s ∧
      s.results = [.index 0, .index 1, .item [3, 4], .item [1, 2]] ∧ Refines growingCalls s := by
  obtain ⟨s, hrun, hresults⟩ : ∃ s, Lts.run step growingCalls (initial emptyHeap) = some s ∧
      s.results = [.index 0, .index 1, .item [3, 4], .item [1, 2]] := ⟨_, rfl, rfl⟩
  refine ⟨s, hrun, hresults, (array_refines_list_iff _ _ s hrun).mpr ?_⟩
  decide

/-- An array made without capacity is pushed to. -/
def pushToEmpty : List Op :=
  [.create 4 0 (allocAt 16 0), .pushBack 0 [1, 2, 3, 4] allocNull]

/-- `realloc` to size zero returns `NULL`, and the program ends. -/
theorem pushToEmpty_exits :
    ∃ s, Lts.run step pushToEmpty (initial emptyHeap) = some s ∧ s.failure = some .exit ∧
      ¬ Refines pushToEmpty s := by
  refine ⟨_, rfl, rfl, fun hrefines => ?_⟩
  cases hrefines.1

end GrowableArray

end PRShooter
