import Mathlib.Data.List.Induction
import Mathlib.Data.List.Nodup

/-!
# Doubly linked lists

Nodes at addresses of any type, each with a link to the previous and one to the next node, and what
it means that some of them are linked into a list (`Linked`). Following the links from either end
gives the list, forwards or backwards (`Linked.forward`, `Linked.backward`). A node is linked in at
either end, and out of the front, by changing the links of at most two nodes.
-/

namespace DoublyLinked

variable {ι : Type*}

/-- The links of a node. -/
structure Links (ι : Type*) where
  previous : Option ι
  next : Option ι

/-! ## Segments -/

/-- The nodes are linked to each other in order, the first one back to `before` and the last one on
to `after`. -/
def Segment (links : ι → Option (Links ι)) : Option ι → List ι → Option ι → Prop
  | _, [], _ => True
  | before, a :: as, after =>
    links a = some ⟨before, as.head?.or after⟩ ∧ Segment links (some a) as after

variable {links links' : ι → Option (Links ι)} {before after : Option ι} {as bs : List ι} {a : ι}

/-- Only the links of its nodes matter to a segment. -/
theorem Segment.congr (h : Segment links before as after) (heq : ∀ a ∈ as, links' a = links a) :
    Segment links' before as after := by
  induction as generalizing before with
  | nil => trivial
  | cons a as ih =>
    exact ⟨(heq a List.mem_cons_self).trans h.1,
      ih h.2 fun b hb => heq b (List.mem_cons_of_mem a hb)⟩

theorem segment_append : Segment links before (as ++ bs) after ↔
    Segment links before as (bs.head?.or after) ∧ Segment links (as.getLast?.or before) bs after := by
  induction as generalizing before with
  | nil => simp [Segment]
  | cons a as ih =>
    have hhead : (as ++ bs).head?.or after = as.head?.or (bs.head?.or after) := by
      rw [List.head?_append, Option.or_assoc]
    have hlast : (a :: as).getLast?.or before = as.getLast?.or (some a) := by
      rw [List.getLast?_cons]
      cases as.getLast? <;> rfl
    rw [List.cons_append, Segment, ih, hhead, hlast, Segment, and_assoc]

theorem segment_concat : Segment links before (as ++ [a]) after ↔
    Segment links before as (some a) ∧ links a = some ⟨as.getLast?.or before, after⟩ := by
  rw [segment_append]
  simp [Segment]

/-! ## Lists -/

/-- The nodes are linked into a list from `first` to `last`. -/
structure Linked (links : ι → Option (Links ι)) (first last : Option ι) (as : List ι) : Prop where
  nodup : as.Nodup
  first : first = as.head?
  last : last = as.getLast?
  segment : Segment links none as none

variable {first last : Option ι}

theorem linked_nil (links : ι → Option (Links ι)) : Linked links none none [] :=
  ⟨List.nodup_nil, rfl, rfl, trivial⟩

theorem Linked.congr (h : Linked links first last as) (heq : ∀ a ∈ as, links' a = links a) :
    Linked links' first last as :=
  ⟨h.nodup, h.first, h.last, h.segment.congr heq⟩

theorem Linked.first_eq_none_iff (h : Linked links first last as) : first = none ↔ as = [] := by
  rw [h.first, List.head?_eq_none_iff]

theorem Linked.last_eq_none_iff (h : Linked links first last as) : last = none ↔ as = [] := by
  rw [h.last, List.getLast?_eq_none_iff]

/-! ## Following the links -/

/-- The addresses met from an address on, up to the end. -/
inductive Path (succ : ι → Option (Option ι)) : Option ι → List ι → Prop
  | nil : Path succ none []
  | cons {a : ι} {p : Option ι} {as : List ι} (ha : succ a = some p) (hrest : Path succ p as) :
      Path succ (some a) (a :: as)

theorem Path.unique {succ : ι → Option (Option ι)} {p : Option ι} (h : Path succ p as)
    (h' : Path succ p bs) : as = bs := by
  induction h generalizing bs with
  | nil =>
    cases h'
    rfl
  | cons ha _ ih =>
    cases h' with
    | cons ha' hrest' =>
      obtain rfl := Option.some.inj (ha.symm.trans ha')
      rw [ih hrest']

theorem Segment.forward (h : Segment links before as none) :
    Path (fun a => (links a).map Links.next) as.head? as := by
  induction as generalizing before with
  | nil => exact .nil
  | cons a as ih =>
    refine .cons (p := as.head?) ?_ (ih h.2)
    rw [h.1, Option.or_none]
    rfl

theorem Segment.backward (h : Segment links none as after) :
    Path (fun a => (links a).map Links.previous) as.getLast? as.reverse := by
  induction as using List.reverseRecOn generalizing after with
  | nil => exact .nil
  | append_singleton as a ih =>
    rw [segment_concat] at h
    rw [List.getLast?_concat, List.reverse_concat]
    refine .cons (p := as.getLast?) ?_ (ih h.1)
    rw [h.2, Option.or_none]
    rfl

/-- Following the next nodes from the first one. -/
theorem Linked.forward (h : Linked links first last as) :
    Path (fun a => (links a).map Links.next) first as := by
  rw [h.first]
  exact h.segment.forward

/-- Following the previous nodes from the last one. -/
theorem Linked.backward (h : Linked links first last as) :
    Path (fun a => (links a).map Links.previous) last as.reverse := by
  rw [h.last]
  exact h.segment.backward

/-! ## Linking in and out -/

/-- A new last node: its links, and the one from the old last node. -/
theorem Linked.pushBack (h : Linked links first last as) (hnew : a ∉ as)
    (hnode : links' a = some ⟨last, none⟩)
    (hlast : ∀ b l, last = some b → links b = some l → links' b = some { l with next := some a })
    (hframe : ∀ b ∈ as, last ≠ some b → links' b = links b) :
    Linked links' (first.or (some a)) (some a) (as ++ [a]) := by
  obtain ⟨hnodup, rfl, rfl, hsegment⟩ := h
  refine ⟨List.nodup_append.mpr ⟨hnodup, List.nodup_singleton a, ?_⟩, ?_, ?_, ?_⟩
  · rintro b hb c hc rfl
    exact hnew (List.mem_singleton.mp hc ▸ hb)
  · rw [List.head?_append]
    rfl
  · exact List.getLast?_concat.symm
  rw [segment_concat, Option.or_none]
  refine ⟨?_, hnode⟩
  rcases List.eq_nil_or_concat' as with rfl | ⟨as, b, rfl⟩
  · trivial
  rw [segment_concat] at hsegment ⊢
  have hb : b ∉ as := fun hb => (List.nodup_append.mp hnodup).2.2 b hb b (by simp) rfl
  refine ⟨hsegment.1.congr fun c hc => hframe c (by simp [hc]) ?_, ?_⟩
  · rw [List.getLast?_concat]
    intro hbc
    exact hb (Option.some.inj hbc ▸ hc)
  · exact hlast b _ List.getLast?_concat hsegment.2

/-- Another node before the first one. -/
theorem Segment.relink {before : Option ι} (h : Segment links before as none) (hnodup : as.Nodup)
    {before' : Option ι}
    (hfirst : ∀ b l, as.head? = some b → links b = some l →
      links' b = some { l with previous := before' })
    (hframe : ∀ b ∈ as, as.head? ≠ some b → links' b = links b) : Segment links' before' as none := by
  cases as with
  | nil => trivial
  | cons b as =>
    refine ⟨hfirst b _ rfl h.1, h.2.congr fun c hc => ?_⟩
    refine hframe c (List.mem_cons_of_mem b hc) fun hbc => ?_
    exact (List.nodup_cons.mp hnodup).1 (Option.some.inj hbc ▸ hc)

/-- A new first node. -/
theorem Linked.pushFront (h : Linked links first last as) (hnew : a ∉ as)
    (hnode : links' a = some ⟨none, first⟩)
    (hfirst : ∀ b l, first = some b → links b = some l →
      links' b = some { l with previous := some a })
    (hframe : ∀ b ∈ as, first ≠ some b → links' b = links b) :
    Linked links' (some a) (last.or (some a)) (a :: as) := by
  obtain ⟨hnodup, rfl, rfl, hsegment⟩ := h
  refine ⟨List.nodup_cons.mpr ⟨hnew, hnodup⟩, rfl, ?_, ?_⟩
  · rw [List.getLast?_cons]
    cases as.getLast? <;> rfl
  exact ⟨by rw [hnode, Option.or_none], hsegment.relink hnodup hfirst hframe⟩

/-- Without the first node. -/
theorem Linked.popFront (h : Linked links first last (a :: as))
    (hfirst : ∀ b l, as.head? = some b → links b = some l →
      links' b = some { l with previous := none })
    (hframe : ∀ b ∈ as, as.head? ≠ some b → links' b = links b) :
    Linked links' as.head? as.getLast? as := by
  obtain ⟨hnodup, -, -, -, hsegment⟩ := h
  have hnodup' := (List.nodup_cons.mp hnodup).2
  exact ⟨hnodup', rfl, rfl, hsegment.relink hnodup' hfirst hframe⟩

end DoublyLinked
