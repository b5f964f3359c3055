import Mathlib.Data.List.Basic

/-!
# A heap of blocks

Blocks at the addresses that are allocated, and the addresses that have been given to `free`, in
order. An allocation gets the address it is to return, which has to be unused; `free` takes an
allocated one only. Both say `none` to anything else.
-/

/-- A heap of blocks of the type `β`. -/
structure Heap (β : Type*) where
  block : ℕ → Option β
  freed : List ℕ

namespace Heap

variable {β : Type*}

/-- Another content for a block. -/
def set (h : Heap β) (a : ℕ) (b : β) : Heap β :=
  { h with block := Function.update h.block a (some b) }

/-- Allocation at an unused address. -/
def malloc (h : Heap β) (a : ℕ) (b : β) : Option (Heap β) :=
  if (h.block a).isNone then some (h.set a b) else none

/-- Deallocation. -/
def free (h : Heap β) (a : ℕ) : Option (Heap β) :=
  if (h.block a).isSome then
    some { block := Function.update h.block a none, freed := h.freed ++ [a] }
  else none

/-- The heap without some blocks, which have been freed in this order. -/
def without (h : Heap β) (as : List ℕ) : Heap β :=
  { block := fun c => if c ∈ as then none else h.block c, freed := h.freed ++ as }

variable {h h' : Heap β} {a c : ℕ} {b : β}

@[simp] theorem block_set : (h.set a b).block c = if c = a then some b else h.block c := by
  simp [set, Function.update_apply]

theorem block_set_self : (h.set a b).block a = some b := by
  rw [block_set, if_pos rfl]

theorem block_set_of_ne (hc : c ≠ a) : (h.set a b).block c = h.block c := by
  rw [block_set, if_neg hc]

@[simp] theorem freed_set : (h.set a b).freed = h.freed := rfl

@[simp] theorem set_set (b' : β) : (h.set a b).set a b' = h.set a b' := by
  simp [set]

theorem malloc_eq_some : h.malloc a b = some h' ↔ h.block a = none ∧ h' = h.set a b := by
  unfold malloc
  split_ifs with hnone
  · rw [Option.isNone_iff_eq_none] at hnone
    simp [hnone, eq_comm]
  · rw [Option.isNone_iff_eq_none] at hnone
    simp [hnone]

theorem free_eq_some : h.free a = some h' ↔ h.block a ≠ none ∧ h' = h.without [a] := by
  have hwithout : h.without [a] =
      { block := Function.update h.block a none, freed := h.freed ++ [a] } := by
    unfold without
    congr 1
    funext c
    simp [Function.update_apply]
  rw [hwithout]
  unfold free
  split_ifs with hsome
  · rw [Option.isSome_iff_ne_none] at hsome
    simp [hsome, eq_comm]
  · rw [Option.isSome_iff_ne_none] at hsome
    simp [hsome]

theorem block_without_of_notMem {as : List ℕ} (hc : c ∉ as) :
    (h.without as).block c = h.block c := if_neg hc

theorem without_without (as bs : List ℕ) : (h.without as).without bs = h.without (as ++ bs) := by
  unfold without
  congr 1
  · funext c
    by_cases hb : c ∈ bs
    · simp [hb]
    · simp [hb]
  · exact List.append_assoc ..

@[simp] theorem without_nil : h.without [] = h := by
  simp [without]

end Heap
