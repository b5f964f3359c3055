import Mathlib.Data.List.Basic
import Mathlib.Data.List.Rotate

/-!
# Loops over the edges of a closed polygon

The loop `for(i = 0; i < size - 1; ++i)` over each element of a vector and the next one, followed by
the last element and the first. The size is unsigned: below zero it wraps around. The body may end
the loop early.

On an empty vector the loop reads past the end at once (`run_nil`). On every other one it visits the
edges of the closed polygon in order, each once (`run_eq`).
-/

namespace CyclicLoop

variable {α σ : Type*}

/-! ## The loop -/

/-- A loop on its way: whether the body has ended it, its state, and the indices it has visited. -/
structure Progress (σ : Type*) where
  stopped : Bool
  state : σ
  visits : List (ℕ × ℕ)

/-- One turn of the loop; `none` is a read past the end. -/
def visit (l : List α) (body : σ → α → α → Bool × σ) (i j : ℕ) (p : Progress σ) :
    Option (Progress σ) :=
  match l[i]?, l[j]? with
  | some a, some b =>
    some ⟨(body p.state a b).1, (body p.state a b).2, p.visits ++ [(i, j)]⟩
  | _, _ => none

/-- `turns` turns from the index `i` on. -/
def loop (l : List α) (body : σ → α → α → Bool × σ) : ℕ → ℕ → Progress σ → Option (Progress σ)
  | 0, _, p => some p
  | turns + 1, i, p =>
    if p.stopped then some p else (visit l body i (i + 1) p).bind (loop l body turns (i + 1))

/-- `size - 1`, where the largest number is `max`. -/
def sizeMinusOne (max size : ℕ) : ℕ := if size = 0 then max else size - 1

/-- The loop and the closing edge. -/
def run (max : ℕ) (l : List α) (body : σ → α → α → Bool × σ) (s : σ) : Option (Progress σ) :=
  (loop l body (sizeMinusOne max l.length) 0 ⟨false, s, []⟩).bind fun p =>
    if p.stopped || l.isEmpty then some p else visit l body (l.length - 1) 0 p

/-! ## What it visits -/

/-- Each index with its cyclic successor. -/
def indices (n : ℕ) : List (ℕ × ℕ) := (List.range n).map fun i => (i, (i + 1) % n)

/-- The loop, then the closing edge. -/
theorem indices_succ (n : ℕ) :
    indices (n + 1) = (List.range n).map (fun i => (i, i + 1)) ++ [(n, 0)] := by
  unfold indices
  rw [List.range_succ, List.map_append, List.map_singleton, Nat.mod_self]
  congr 1
  refine List.map_congr_left fun i hi => ?_
  have hlt : i < n := List.mem_range.mp hi
  rw [Nat.mod_eq_of_lt (by omega)]

/-- The turns for a list of indices, until the body ends the loop. -/
def follow (l : List α) (body : σ → α → α → Bool × σ) :
    List (ℕ × ℕ) → Progress σ → Option (Progress σ)
  | [], p => some p
  | (i, j) :: is, p => if p.stopped then some p else (visit l body i j p).bind (follow l body is)

/-- The body over the edges themselves. -/
def foldUntil (body : σ → α → α → Bool × σ) : List (α × α) → σ → Bool × σ
  | [], s => (false, s)
  | (a, b) :: es, s => if (body s a b).1 then body s a b else foldUntil body es (body s a b).2

variable {l : List α} {body : σ → α → α → Bool × σ}

theorem loop_eq_follow (turns i : ℕ) (p : Progress σ) :
    loop l body turns i p = follow l body ((List.range' i turns).map fun a => (a, a + 1)) p := by
  induction turns generalizing i p with
  | zero => rfl
  | succ turns ih =>
    have hfollow : loop l body turns (i + 1)
        = follow l body ((List.range' (i + 1) turns).map fun a => (a, a + 1)) := by
      funext q
      exact ih (i + 1) q
    unfold loop
    rw [hfollow]
    rfl

theorem follow_cons (e : ℕ × ℕ) (is : List (ℕ × ℕ)) (p : Progress σ) :
    follow l body (e :: is) p =
      if p.stopped then some p else (visit l body e.1 e.2 p).bind (follow l body is) := rfl

theorem follow_of_stopped {is : List (ℕ × ℕ)} {p : Progress σ} (h : p.stopped = true) :
    follow l body is p = some p := by
  cases is with
  | nil => rfl
  | cons e is => rw [follow_cons, if_pos h]

theorem follow_append (is js : List (ℕ × ℕ)) (p : Progress σ) :
    follow l body (is ++ js) p = (follow l body is p).bind (follow l body js) := by
  induction is generalizing p with
  | nil => rfl
  | cons e is ih =>
    rw [List.cons_append, follow_cons, follow_cons]
    by_cases hstopped : p.stopped = true
    · rw [if_pos hstopped, if_pos hstopped, Option.bind_some, follow_of_stopped hstopped]
    · rw [if_neg hstopped, if_neg hstopped, Option.bind_assoc]
      congr 1
      funext q
      exact ih q

theorem run_eq_follow (max : ℕ) (hne : l ≠ []) (s : σ) :
    run max l body s = follow l body (indices l.length) ⟨false, s, []⟩ := by
  obtain ⟨n, hn⟩ : ∃ n, l.length = n + 1 := Nat.exists_eq_succ_of_ne_zero (by simpa using hne)
  have hempty : l.isEmpty = false := by simpa using hne
  have hsize : sizeMinusOne max l.length = n := by
    unfold sizeMinusOne
    rw [if_neg (by omega), hn, Nat.add_sub_cancel]
  unfold run
  rw [hsize, loop_eq_follow, hn, indices_succ, follow_append, List.range_eq_range', hempty]
  congr 1
  funext p
  cases hstopped : p.stopped with
  | true => rw [follow_of_stopped hstopped]; rfl
  | false =>
    rw [follow_cons, hstopped]
    show visit l body (n + 1 - 1) 0 p = (visit l body n 0 p).bind some
    rw [Nat.add_sub_cancel, Option.bind_fun_some]

/-- The loop on an empty vector reads past its end. -/
theorem run_nil {max : ℕ} (hmax : max ≠ 0) (s : σ) : run max ([] : List α) body s = none := by
  obtain ⟨turns, rfl⟩ := Nat.exists_eq_succ_of_ne_zero hmax
  rfl

/-! ## What it computes -/

/-- The elements at the indices. -/
def Reads (l : List α) (e : ℕ × ℕ) (edge : α × α) : Prop :=
  l[e.1]? = some edge.1 ∧ l[e.2]? = some edge.2

theorem follow_eq {is : List (ℕ × ℕ)} {edges : List (α × α)} (h : List.Forall₂ (Reads l) is edges)
    (s : σ) (visits : List (ℕ × ℕ)) :
    ∃ more, follow l body is ⟨false, s, visits⟩
        = some ⟨(foldUntil body edges s).1, (foldUntil body edges s).2, visits ++ more⟩ ∧
      more <+: is ∧ ((foldUntil body edges s).1 = false → more = is) := by
  induction h generalizing s visits with
  | nil => exact ⟨[], by simp [follow, foldUntil], List.prefix_refl _, fun _ => rfl⟩
  | @cons e edge is edges he hrest ih =>
    obtain ⟨i, j⟩ := e
    obtain ⟨a, b⟩ := edge
    have hvisit : visit l body i j ⟨false, s, visits⟩
        = some ⟨(body s a b).1, (body s a b).2, visits ++ [(i, j)]⟩ := by
      obtain ⟨hi, hj⟩ : l[i]? = some a ∧ l[j]? = some b := he
      unfold visit
      rw [hi, hj]
    have hfollow : follow l body ((i, j) :: is) ⟨false, s, visits⟩
        = follow l body is ⟨(body s a b).1, (body s a b).2, visits ++ [(i, j)]⟩ := by
      show (visit l body i j ⟨false, s, visits⟩).bind _ = _
      rw [hvisit, Option.bind_some]
    rw [hfollow]
    unfold foldUntil
    cases hstop : (body s a b).1 with
    | true =>
      refine ⟨[(i, j)], ?_, ?_, ?_⟩
      · rw [follow_of_stopped rfl, if_pos rfl, hstop]
      · exact (List.prefix_cons_inj _).mpr List.nil_prefix
      · rw [if_pos rfl, hstop]
        exact fun h => absurd h (by decide)
    | false =>
      obtain ⟨more, hmore, hprefix, hall⟩ := ih (body s a b).2 (visits ++ [(i, j)])
      rw [if_neg Bool.false_ne_true]
      refine ⟨(i, j) :: more, ?_, (List.prefix_cons_inj _).mpr hprefix, fun h => ?_⟩
      · rw [hmore, List.append_assoc]
        rfl
      · rw [hall h]

/-- The indices read the edges of the closed polygon. -/
theorem reads_indices (l : List α) :
    List.Forall₂ (Reads l) (indices l.length) (l.zip (l.rotate 1)) := by
  rw [List.forall₂_iff_get]
  refine ⟨by simp [indices], fun i hi _ => ?_⟩
  have hlt : i < l.length := by simpa [indices] using hi
  have hnext : (i + 1) % l.length < l.length := Nat.mod_lt _ (by omega)
  refine ⟨?_, ?_⟩
  · simp [indices, hlt]
  · simp [indices, hnext, List.getElem_rotate]

/-- **The loop.** On a vector that is not empty, the loop is the body over the edges of the closed
polygon until it ends the loop, and visits all of them in order if it does not. -/
theorem run_eq (max : ℕ) (body : σ → α → α → Bool × σ) (hne : l ≠ []) (s : σ) :
    ∃ visits, run max l body s = some ⟨(foldUntil body (l.zip (l.rotate 1)) s).1,
        (foldUntil body (l.zip (l.rotate 1)) s).2, visits⟩ ∧
      visits <+: indices l.length ∧
      ((foldUntil body (l.zip (l.rotate 1)) s).1 = false → visits = indices l.length) := by
  rw [run_eq_follow max hne]
  exact follow_eq (reads_indices l) s []

/-- A body that never ends the loop is folded. -/
theorem foldUntil_of_false {f : σ → α × α → σ} (es : List (α × α)) (s : σ) :
    foldUntil (fun s a b => (false, f s (a, b))) es s = (false, es.foldl f s) := by
  induction es generalizing s with
  | nil => rfl
  | cons e es ih => exact ih (f s e)

/-- A body without a state ends the loop at the first edge that passes its test. -/
theorem foldUntil_test (test : α × α → Bool) (es : List (α × α)) :
    (foldUntil (fun (_ : Unit) a b => (test (a, b), ())) es ()).1 = es.any test := by
  induction es with
  | nil => rfl
  | cons e es ih =>
    show (if test e then (test e, ()) else _).1 = _
    rw [List.any_cons]
    cases test e with
    | true => rfl
    | false => exact ih

end CyclicLoop
