import Mathlib.Data.List.Perm.Basic
import Mathlib.Data.List.Nodup
import PRShooter.History

/-!
# Ownership

Resources that are acquired, used and released once. `Accounts log owned` says that the history
`log` is in order and that `owned` are the resources which have been acquired and not released.
Passing a resource on is a permutation of `owned`; when nothing is owned, everything that was
acquired has been released exactly once (`Accounts.settled`).
-/

namespace Ownership

open History

variable {β : Type*}

/-- What happens to a resource. -/
inductive Event (β : Type*) where
  | acquired (b : β)
  | used (b : β)
  | released (b : β)
  deriving DecidableEq, Repr

/-- The resources acquired, in order. -/
def acquired (log : List (Event β)) : List β :=
  log.filterMap fun
    | .acquired b => some b
    | _ => none

/-- The resources released, in order. -/
def released (log : List (Event β)) : List β :=
  log.filterMap fun
    | .released b => some b
    | _ => none

/-- The event may follow the history: a resource is acquired once, and it is used and released
while it is held. -/
def InTime (log : List (Event β)) : Event β → Prop
  | .acquired b => b ∉ acquired log
  | .used b | .released b => b ∈ acquired log ∧ b ∉ released log

/-- The history is in order, and `owned` are the resources not yet released. -/
structure Accounts (log : List (Event β)) (owned : List β) : Prop where
  inTime : EachEvent InTime log
  nodup : (acquired log).Nodup
  balance : (released log ++ owned).Perm (acquired log)

@[simp] theorem acquired_append (log log' : List (Event β)) :
    acquired (log ++ log') = acquired log ++ acquired log' := List.filterMap_append

@[simp] theorem released_append (log log' : List (Event β)) :
    released (log ++ log') = released log ++ released log' := List.filterMap_append

@[simp] theorem acquired_acquired (b : β) : acquired [Event.acquired b] = [b] := rfl
@[simp] theorem acquired_used (b : β) : acquired [Event.used b] = [] := rfl
@[simp] theorem acquired_released (b : β) : acquired [Event.released b] = [] := rfl
@[simp] theorem released_acquired (b : β) : released [Event.acquired b] = [] := rfl
@[simp] theorem released_used (b : β) : released [Event.used b] = [] := rfl
@[simp] theorem released_released (b : β) : released [Event.released b] = [b] := rfl

/-! ## Lists of owners -/

section Owners

variable {α : Type*} {f : α → Option β} {owners : List α} {a : α} {i : ℕ}

theorem filterMap_cons_toList (f : α → Option β) (a : α) (owners : List α) :
    (a :: owners).filterMap f = (f a).toList ++ owners.filterMap f := by
  cases h : f a <;> simp [h]

/-- What one of several owners owns, and the rest. -/
theorem filterMap_perm_eraseIdx (h : owners[i]? = some a) :
    (owners.filterMap f).Perm ((f a).toList ++ (owners.eraseIdx i).filterMap f) := by
  obtain ⟨hlt, rfl⟩ := List.getElem?_eq_some_iff.mp h
  rw [← filterMap_cons_toList]
  exact (List.getElem_cons_eraseIdx_perm hlt).symm.filterMap f

theorem filterMap_set_perm (h : owners[i]? = some a) (a' : α) :
    ((owners.set i a').filterMap f).Perm ((f a').toList ++ (owners.eraseIdx i).filterMap f) := by
  rw [← filterMap_cons_toList]
  exact (List.set_perm_cons_eraseIdx (List.getElem?_eq_some_iff.mp h).1 a').filterMap f

end Owners

/-! ## The accounts -/

namespace Accounts

variable {log : List (Event β)} {owned owned' : List β} {b : β}

theorem nil : Accounts ([] : List (Event β)) [] := ⟨.nil, .nil, .nil⟩

theorem perm (h : Accounts log owned) (hperm : owned.Perm owned') : Accounts log owned' :=
  ⟨h.inTime, h.nodup, (hperm.symm.append_left _).trans h.balance⟩

/-- A resource that is owned is held. -/
theorem held (h : Accounts log owned) (hb : b ∈ owned) : b ∈ acquired log ∧ b ∉ released log := by
  have hnodup : (released log ++ owned).Nodup := h.balance.nodup_iff.mpr h.nodup
  refine ⟨h.balance.subset (List.mem_append_right _ hb), fun hreleased => ?_⟩
  exact (List.nodup_append.mp hnodup).2.2 b hreleased b hb rfl

theorem acquire (h : Accounts log owned) (hb : b ∉ acquired log) :
    Accounts (log ++ [.acquired b]) (b :: owned) where
  inTime := h.inTime.append hb
  nodup := by
    rw [acquired_append, acquired_acquired]
    exact h.nodup.append (List.nodup_singleton b) (by simpa using hb)
  balance := by
    rw [acquired_append, released_append, acquired_acquired, released_acquired, List.append_nil]
    exact List.perm_middle.trans ((h.balance.cons b).trans (List.perm_append_singleton b _).symm)

theorem use (h : Accounts log owned) (hb : b ∈ owned) : Accounts (log ++ [.used b]) owned where
  inTime := h.inTime.append (h.held hb)
  nodup := by simpa using h.nodup
  balance := by simpa using h.balance

theorem release (h : Accounts log (b :: owned)) : Accounts (log ++ [.released b]) owned where
  inTime := h.inTime.append (h.held List.mem_cons_self)
  nodup := by simpa using h.nodup
  balance := by simpa using h.balance

theorem useAll {bs : List β} (h : Accounts log owned) (hbs : ∀ b ∈ bs, b ∈ owned) :
    Accounts (log ++ bs.map .used) owned := by
  induction bs generalizing log with
  | nil => simpa using h
  | cons b bs ih =>
    rw [List.forall_mem_cons] at hbs
    simpa using ih (h.use hbs.1) hbs.2

/-- Several resources are released one after the other. -/
theorem releaseAll {bs : List β} (h : Accounts log (bs ++ owned)) :
    Accounts (log ++ bs.map .released) owned := by
  induction bs generalizing log with
  | nil => simpa using h
  | cons b bs ih => simpa using ih (release h)

/-- Everything is released exactly once when nothing is owned. -/
theorem settled (h : Accounts log []) :
    (released log).Nodup ∧ (released log).Perm (acquired log) := by
  have hbalance : (released log).Perm (acquired log) := by simpa using h.balance
  exact ⟨hbalance.nodup_iff.mpr h.nodup, hbalance⟩

end Accounts

end Ownership
