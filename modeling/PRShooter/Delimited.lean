import Mathlib.Data.List.Basic

/-!
# Delimited text

A text made of pieces each of which is ended by a delimiter; the last delimiter may be left out.
`pieces` is what a loop over `std::getline` reads of a text, and reads back every list of pieces
(`pieces_eq_iff`).
-/

namespace Delimited

variable {α : Type*} {d : α}

/-- The text spells the pieces. -/
inductive Spells (d : α) : List α → List (List α) → Prop
  | nil : Spells d [] []
  | last {p : List α} (hne : p ≠ []) (h : d ∉ p) : Spells d p [p]
  | cons {p text : List α} {ps : List (List α)} (h : d ∉ p) (hrest : Spells d text ps) :
      Spells d (p ++ d :: text) (p :: ps)

variable [DecidableEq α]

/-- The pieces read one after the other until nothing is left. -/
def pieces (d : α) : List α → List (List α)
  | [] => []
  | c :: text =>
    if c = d then [] :: pieces d text
    else
      match pieces d text with
      | [] => [[c]]
      | p :: ps => (c :: p) :: ps

theorem pieces_delimiter (text : List α) : pieces d (d :: text) = [] :: pieces d text := by
  rw [pieces, if_pos rfl]

theorem pieces_append {p : List α} (h : d ∉ p) (text : List α) :
    pieces d (p ++ d :: text) = p :: pieces d text := by
  induction p with
  | nil => exact pieces_delimiter text
  | cons c p ih =>
    have hc : c ≠ d := fun hc => h (by simp [hc])
    rw [List.cons_append, pieces, if_neg hc, ih fun hp => h (by simp [hp])]

theorem pieces_of_notMem {p : List α} (hne : p ≠ []) (h : d ∉ p) : pieces d p = [p] := by
  induction p with
  | nil => exact absurd rfl hne
  | cons c p ih =>
    have hc : c ≠ d := fun hc => h (by simp [hc])
    unfold pieces
    rw [if_neg hc]
    by_cases hp : p = []
    · rw [hp, pieces]
    · rw [ih hp fun hmem => h (by simp [hmem])]

/-- A text that begins with something else begins with a piece that does. -/
theorem pieces_cons {c : α} (hc : c ≠ d) (text : List α) :
    ∃ p ps, pieces d (c :: text) = (c :: p) :: ps := by
  unfold pieces
  rw [if_neg hc]
  cases pieces d text with
  | nil => exact ⟨[], [], rfl⟩
  | cons p ps => exact ⟨p, ps, rfl⟩

theorem spells_pieces (text : List α) : Spells d text (pieces d text) := by
  induction text with
  | nil => exact .nil
  | cons c text ih =>
    by_cases hc : c = d
    · subst hc
      rw [pieces_delimiter]
      exact .cons (p := []) List.not_mem_nil ih
    · unfold pieces
      rw [if_neg hc]
      -- the character joins the first of the pieces behind it
      revert ih
      generalize pieces d text = ps
      intro ih
      cases ih with
      | nil => exact .last (List.cons_ne_nil c []) (by simpa using Ne.symm hc)
      | last hne h => exact .last (List.cons_ne_nil _ _) (by simp [Ne.symm hc, h])
      | cons h hrest => exact .cons (p := c :: _) (by simp [Ne.symm hc, h]) hrest

/-- **Pieces.** The pieces read of a text are the ones it spells. -/
theorem pieces_eq_iff {text : List α} {ps : List (List α)} :
    pieces d text = ps ↔ Spells d text ps := by
  constructor
  · rintro rfl
    exact spells_pieces text
  · intro h
    induction h with
    | nil => rfl
    | last hne h => exact pieces_of_notMem hne h
    | cons h _ ih => rw [pieces_append h, ih]

end Delimited
