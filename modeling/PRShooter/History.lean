import Mathlib.Data.List.Basic

/-!
# Histories

A history is the list of the events of a run so far. `EachEvent` says that every event met a
condition on the history before it; appending an event adds one condition.
-/

namespace History

variable {ε : Type*} {cond : List ε → ε → Prop} {log : List ε} {e : ε}

/-- Every event of the history meets `cond` with respect to the events before it. -/
def EachEvent (cond : List ε → ε → Prop) (log : List ε) : Prop :=
  ∀ pre e post, log = pre ++ e :: post → cond pre e

theorem EachEvent.nil : EachEvent cond [] := by
  intro pre e post h
  simp at h

theorem EachEvent.append (h : EachEvent cond log) (he : cond log e) :
    EachEvent cond (log ++ [e]) := by
  intro pre e' post heq
  rcases List.append_eq_append_iff.mp heq with ⟨as, rfl, hlast⟩ | ⟨bs, rfl, hlast⟩
  · cases as with
    | nil =>
      obtain rfl : e = e' := (List.cons.inj hlast).1
      simpa using he
    | cons a as => simpa using congrArg List.length hlast
  · cases bs with
    | nil =>
      obtain rfl : e' = e := (List.cons.inj hlast).1
      simpa using he
    | cons b bs =>
      obtain rfl : e' = b := (List.cons.inj hlast).1
      exact h pre e' bs rfl

theorem EachEvent.of_initial {log' : List ε} (h : EachEvent cond log) (hinitial : log' <+: log) :
    EachEvent cond log' := by
  obtain ⟨rest, rfl⟩ := hinitial
  rintro pre e post rfl
  exact h pre e (post ++ rest) (by simp)

/-! ## What stands directly before -/

/-- Every `Q` of the history stands directly after a `P`. -/
def DirectlyAfter (P Q : ε → Prop) : List ε → Prop :=
  EachEvent fun pre e => Q e → ∃ w ∈ pre.getLast?, P w

variable {P Q : ε → Prop}

theorem DirectlyAfter.append_of_not (h : DirectlyAfter P Q log) (he : ¬ Q e) :
    DirectlyAfter P Q (log ++ [e]) :=
  EachEvent.append h fun hQ => absurd hQ he

theorem DirectlyAfter.append_pair {w : ε} (h : DirectlyAfter P Q log) (hw : P w) (hnot : ¬ Q w) :
    DirectlyAfter P Q (log ++ [w, e]) := by
  rw [show log ++ [w, e] = log ++ [w] ++ [e] by simp]
  exact EachEvent.append (h.append_of_not hnot) fun _ => ⟨w, by simp, hw⟩

/-! ## Counting since a reset -/

/-- The events that count, since the last one that starts the count again. -/
def countSince (resets counts : ε → Bool) (log : List ε) : ℕ :=
  log.foldl (fun n e => if resets e then 0 else if counts e then n + 1 else n) 0

variable {resets counts : ε → Bool}

@[simp] theorem countSince_nil : countSince resets counts [] = 0 := rfl

theorem countSince_concat (log : List ε) (e : ε) : countSince resets counts (log ++ [e]) =
    if resets e then 0 else countSince resets counts log + if counts e then 1 else 0 := by
  unfold countSince
  rw [List.foldl_append, List.foldl_cons, List.foldl_nil]
  split_ifs <;> rfl

end History
