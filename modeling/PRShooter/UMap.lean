import Mathlib.Data.List.Nodup
import Mathlib.Logic.Function.Basic

/-!
# Finite maps with an enumeration order

The model of an unordered map: the keys in the order an iteration visits them, and the value at
each key. Inserting a new key may permute the enumeration in any way that depends on the keys
alone (`Rehash`); no other operation moves a key that stays.
-/

/-- How the enumeration order changes when a key is inserted. -/
structure Rehash (α : Type*) where
  order : List α → List α
  perm : ∀ l, (order l).Perm l

/-- The enumeration that puts a new key in front. -/
def Rehash.front {α : Type*} : Rehash α := ⟨id, fun l => List.Perm.refl l⟩

/-- The keys in enumeration order, each once, and a value for each of them. -/
structure UMap (α β : Type*) where
  keys : List α
  nodup : keys.Nodup
  val : α → β

namespace UMap

variable {α β : Type*}

/-- The map without keys. -/
def empty (d : β) : UMap α β := ⟨[], List.nodup_nil, fun _ => d⟩

/-- Replace every value in place. -/
def mapVals (m : UMap α β) (f : β → β) : UMap α β := { m with val := fun k => f (m.val k) }

@[simp] theorem keys_empty (d : β) : (empty d : UMap α β).keys = [] := rfl
@[simp] theorem keys_mapVals (m : UMap α β) (f : β → β) : (m.mapVals f).keys = m.keys := rfl
@[simp] theorem val_mapVals (m : UMap α β) (f : β → β) (k : α) :
    (m.mapVals f).val k = f (m.val k) := rfl

variable [DecidableEq α]

/-- Write the value of a key that is there. -/
def set (m : UMap α β) (k : α) (v : β) : UMap α β := { m with val := Function.update m.val k v }

/-- The value of a key that is there. -/
def find? (m : UMap α β) (k : α) : Option β := if k ∈ m.keys then some (m.val k) else none

/-- Remove a key. -/
def erase (m : UMap α β) (k : α) : UMap α β :=
  { m with keys := m.keys.erase k, nodup := m.nodup.erase k }

/-- Insert a key or overwrite its value. -/
def insert (ρ : Rehash α) (m : UMap α β) (k : α) (v : β) : UMap α β :=
  if h : k ∈ m.keys then m.set k v
  else
    { keys := ρ.order (k :: m.keys)
      nodup := (ρ.perm _).nodup_iff.mpr (List.nodup_cons.mpr ⟨h, m.nodup⟩)
      val := Function.update m.val k v }

/-- `operator[]`: make sure that the key is there, with the default value if it is new. -/
def index (ρ : Rehash α) (m : UMap α β) (k : α) (d : β) : UMap α β :=
  if k ∈ m.keys then m else m.insert ρ k d

@[simp] theorem keys_set (m : UMap α β) (k : α) (v : β) : (m.set k v).keys = m.keys := rfl

@[simp] theorem val_set_self (m : UMap α β) (k : α) (v : β) : (m.set k v).val k = v := by
  simp [set]

@[simp] theorem val_set_of_ne (m : UMap α β) {k j : α} (v : β) (h : j ≠ k) :
    (m.set k v).val j = m.val j := by
  simp [set, h]

@[simp] theorem set_val_self (m : UMap α β) (k : α) : m.set k (m.val k) = m := by
  simp [set]

theorem val_set (m : UMap α β) (k j : α) (v : β) :
    (m.set k v).val j = if j = k then v else m.val j := by
  simp [set, Function.update_apply]

@[simp] theorem val_erase (m : UMap α β) (k j : α) : (m.erase k).val j = m.val j := rfl

@[simp] theorem mem_keys_erase (m : UMap α β) {k j : α} :
    j ∈ (m.erase k).keys ↔ j ≠ k ∧ j ∈ m.keys := by
  simp [erase, m.nodup.mem_erase_iff]

theorem keys_insert (ρ : Rehash α) (m : UMap α β) (k : α) (v : β) :
    (m.insert ρ k v).keys = if k ∈ m.keys then m.keys else ρ.order (k :: m.keys) := by
  unfold insert
  split_ifs <;> rfl

theorem keys_index (ρ : Rehash α) (m : UMap α β) (k : α) (d : β) :
    (m.index ρ k d).keys = if k ∈ m.keys then m.keys else ρ.order (k :: m.keys) := by
  unfold index
  split_ifs with h
  · rfl
  · rw [keys_insert, if_neg h]

@[simp] theorem mem_keys_insert (ρ : Rehash α) (m : UMap α β) {k j : α} (v : β) :
    j ∈ (m.insert ρ k v).keys ↔ j = k ∨ j ∈ m.keys := by
  rw [keys_insert]
  split_ifs with h
  · simp only [iff_or_self]
    rintro rfl
    exact h
  · simp [(ρ.perm _).mem_iff]

theorem val_insert (ρ : Rehash α) (m : UMap α β) (k j : α) (v : β) :
    (m.insert ρ k v).val j = if j = k then v else m.val j := by
  unfold insert
  split_ifs with h <;> simp [set, *]

theorem index_of_mem (ρ : Rehash α) {m : UMap α β} {k : α} (d : β) (h : k ∈ m.keys) :
    m.index ρ k d = m := by
  simp [index, h]

@[simp] theorem mem_keys_index (ρ : Rehash α) (m : UMap α β) {k j : α} (d : β) :
    j ∈ (m.index ρ k d).keys ↔ j = k ∨ j ∈ m.keys := by
  rw [keys_index, ← keys_insert ρ m k d, mem_keys_insert]

theorem self_mem_keys_index (ρ : Rehash α) (m : UMap α β) (k : α) (d : β) :
    k ∈ (m.index ρ k d).keys :=
  (mem_keys_index ρ m d).mpr (.inl rfl)

theorem val_index (ρ : Rehash α) (m : UMap α β) (k j : α) (d : β) :
    (m.index ρ k d).val j = if j = k ∧ k ∉ m.keys then d else m.val j := by
  unfold index
  split_ifs with h h' h' <;> simp_all [val_insert]

/-- The enumeration after `operator[]` depends on the keys alone. -/
theorem keys_index_congr (ρ : Rehash α) {m m' : UMap α β} (h : m.keys = m'.keys) (k : α)
    (d d' : β) : (m.index ρ k d).keys = (m'.index ρ k d').keys := by
  rw [keys_index, keys_index, h]

/-! ## Replacing every value -/

theorem mapVals_set (m : UMap α β) (f : β → β) (k : α) (v : β) :
    (m.set k v).mapVals f = (m.mapVals f).set k (f v) := by
  simp only [mapVals, set, mk.injEq, true_and]
  exact funext fun j => Function.apply_update (fun _ => f) m.val k v j

theorem mapVals_index (ρ : Rehash α) (m : UMap α β) (f : β → β) (k : α) (d : β) :
    (m.index ρ k d).mapVals f = (m.mapVals f).index ρ k (f d) := by
  by_cases hk : k ∈ m.keys
  · have hk' : k ∈ (m.mapVals f).keys := hk
    rw [index_of_mem ρ d hk, index_of_mem ρ (f d) hk']
  · have hk' : k ∉ (m.mapVals f).keys := hk
    simp only [index, insert, if_neg hk, dif_neg hk, if_neg hk', dif_neg hk']
    simp only [mapVals, mk.injEq, true_and]
    exact funext fun j => Function.apply_update (fun _ => f) m.val k d j

/-! ## Lookup -/

theorem find?_set (m : UMap α β) (k j : α) (v : β) :
    (m.set k v).find? j = if j = k ∧ k ∈ m.keys then some v else m.find? j := by
  unfold find?
  rw [keys_set, val_set]
  split_ifs with hj hjk h h <;> simp_all

theorem find?_insert (ρ : Rehash α) (m : UMap α β) (k j : α) (v : β) :
    (m.insert ρ k v).find? j = if j = k then some v else m.find? j := by
  unfold find?
  rw [val_insert]
  split_ifs with h <;> simp_all

theorem find?_index (ρ : Rehash α) (m : UMap α β) (k j : α) (d : β) :
    (m.index ρ k d).find? j = if j = k then some ((m.find? k).getD d) else m.find? j := by
  unfold find?
  rw [val_index]
  split_ifs with h <;> simp_all

theorem find?_erase (m : UMap α β) (k j : α) :
    (m.erase k).find? j = if j = k then none else m.find? j := by
  unfold find?
  split_ifs with h <;> simp_all

/-- `operator[]` returns the value that is there, or the default it inserts. -/
theorem val_index_self (ρ : Rehash α) (m : UMap α β) (k : α) (d : β) :
    (m.index ρ k d).val k = (m.find? k).getD d := by
  unfold find?
  rw [val_index]
  split_ifs with h <;> simp_all

theorem isSome_find? (m : UMap α β) (k : α) : (m.find? k).isSome ↔ k ∈ m.keys := by
  simp [find?]

/-! ## Conditions on all entries -/

/-- Every key that is there has a value that meets the condition. -/
def All (P : α → β → Prop) (m : UMap α β) : Prop := ∀ k ∈ m.keys, P k (m.val k)

namespace All

variable {P : α → β → Prop} {m : UMap α β} {k : α} {v : β}

theorem set (h : m.All P) (hv : k ∈ m.keys → P k v) : (m.set k v).All P := by
  intro j hj
  rw [val_set]
  split_ifs with hjk
  · exact hjk ▸ hv (hjk ▸ hj)
  · exact h j hj

theorem insert (h : m.All P) (ρ : Rehash α) (hv : P k v) : (m.insert ρ k v).All P := by
  intro j hj
  rw [val_insert]
  split_ifs with hjk
  · exact hjk ▸ hv
  · exact h j (((mem_keys_insert ..).mp hj).resolve_left hjk)

theorem index (h : m.All P) (ρ : Rehash α) (hv : P k v) : (m.index ρ k v).All P := by
  unfold UMap.index
  split_ifs
  · exact h
  · exact h.insert ρ hv

theorem erase (h : m.All P) (k : α) : (m.erase k).All P :=
  fun j hj => h j ((mem_keys_erase m).mp hj).2

end All

end UMap
