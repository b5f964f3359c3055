import Mathlib.Analysis.Convex.Topology
import Mathlib.Analysis.Normed.Module.Convex
import Mathlib.Topology.Order.IntermediateValue
import Mathlib.Topology.Order.Lattice

/-!
# Regions and their boundary

General facts on leaving a region: a segment that leaves a set `K` of a real topological vector
space meets its frontier, from the interior if `K` is convex and solid, and a path that leaves a
region given by finitely many inequalities attains one of them on the way.
-/

namespace ConvexRegion

variable {E : Type*} [AddCommGroup E] [Module ℝ E] [TopologicalSpace E] [IsTopologicalAddGroup E]
  [ContinuousSMul ℝ E] {K : Set E} {x y : E}

/-- **Crossing.** A segment from a point of `K` to a point outside meets the frontier of `K`. -/
theorem exists_mem_segment_frontier (hx : x ∈ K) (hy : y ∉ K) :
    ∃ z ∈ segment ℝ x y, z ∈ frontier K := by
  by_contra hnone
  have hoff : ∀ z ∈ segment ℝ x y, z ∉ frontier K := fun z hz hf => hnone ⟨z, hz, hf⟩
  have hxs := left_mem_segment ℝ x y
  have hys := right_mem_segment ℝ x y
  have hxin : x ∈ interior K := by
    by_contra hxi
    exact hoff x hxs ⟨subset_closure hx, hxi⟩
  have hyout : y ∈ (closure K)ᶜ := by
    intro hyc
    exact hoff y hys ⟨hyc, fun hyi => hy (interior_subset hyi)⟩
  have hcover : segment ℝ x y ⊆ interior K ∪ (closure K)ᶜ := by
    intro z hz
    by_cases hzc : z ∈ closure K
    · left
      by_contra hzi
      exact hoff z hz ⟨hzc, hzi⟩
    · exact Or.inr hzc
  have hconn : IsPreconnected (segment ℝ x y) := (convex_segment x y).isPreconnected
  obtain ⟨z, -, hzi, hzc⟩ := hconn _ _ isOpen_interior isClosed_closure.isOpen_compl hcover
    ⟨x, hxs, hxin⟩ ⟨y, hys, hyout⟩
  exact hzc (interior_subset_closure hzi)

/-- **Leaving finitely many inequalities.** Where all `f i` are nonnegative at `0` and one is negative
at `1`, there is a place in between where all still hold and one is an equality. -/
theorem exists_first_zero {ι : Type*} [Fintype ι] {f : ι → ℝ → ℝ} (hf : ∀ i, Continuous (f i))
    (h0 : ∀ i, 0 ≤ f i 0) {j : ι} (h1 : f j 1 < 0) :
    ∃ t ∈ Set.Icc (0 : ℝ) 1, (∀ i, 0 ≤ f i t) ∧ ∃ i, f i t = 0 := by
  have hne : (Finset.univ : Finset ι).Nonempty := ⟨j, Finset.mem_univ j⟩
  -- the least of the functions changes its sign
  have hcont : ContinuousOn (fun t => Finset.univ.inf' hne fun i => f i t) (Set.Icc 0 1) :=
    (Continuous.finset_inf'_apply hne fun i _ => hf i).continuousOn
  have hstart : 0 ≤ Finset.univ.inf' hne fun i => f i 0 :=
    Finset.le_inf' hne _ fun i _ => h0 i
  have hend : (Finset.univ.inf' hne fun i => f i 1) ≤ 0 :=
    (Finset.inf'_le _ (Finset.mem_univ j)).trans h1.le
  obtain ⟨t, ht, hzero⟩ := intermediate_value_Icc' zero_le_one hcont ⟨hend, hstart⟩
  refine ⟨t, ht, fun i => ?_, ?_⟩
  · rw [← hzero]
    exact Finset.inf'_le _ (Finset.mem_univ i)
  · obtain ⟨i, -, hi⟩ := Finset.exists_mem_eq_inf' hne fun i => f i t
    exact ⟨i, hi.symm.trans hzero⟩

/-- A function that is nonnegative on `K` is positive in its interior, if it grows along a line. -/
theorem pos_of_mem_interior {f : E → ℝ} {v : E} {l : ℝ} (hf : ∀ z ∈ K, 0 ≤ f z)
    (hx : x ∈ interior K) (hline : ∀ s : ℝ, f (x + s • v) = f x + s * l) (hl : 0 < l) :
    0 < f x := by
  have hcont : Continuous fun s : ℝ => x + s • v := by fun_prop
  have hnear : Set.preimage (fun s : ℝ => x + s • v) (interior K) ∈ nhds (0 : ℝ) :=
    hcont.continuousAt.preimage_mem_nhds (by simpa using isOpen_interior.mem_nhds hx)
  obtain ⟨δ, hδ, hball⟩ := Metric.mem_nhds_iff.mp hnear
  -- a step back along the line stays in `K`
  have hback : x + (-(δ / 2)) • v ∈ interior K := by
    refine hball ?_
    rw [Metric.mem_ball, dist_zero_right, Real.norm_eq_abs, abs_neg, abs_of_pos (by linarith)]
    linarith
  have hle := hf _ (interior_subset hback)
  rw [hline] at hle
  nlinarith

end ConvexRegion

namespace ConvexRegion

variable {E : Type*} [NormedAddCommGroup E] [NormedSpace ℝ E] {K : Set E} {x y : E}

/-- **Crossing from the inside.** Who goes from a point of a solid convex set to a point outside
crosses the frontier from the interior, up to an arbitrarily small shift of the first point. -/
theorem exists_crossing (hconvex : Convex ℝ K) (hclosed : IsClosed K)
    (hsolid : (interior K).Nonempty) (hx : x ∈ K) (hy : y ∉ K) {ε : ℝ} (hε : 0 < ε) :
    ∃ x' ∈ interior K, dist x x' < ε ∧
      ∃ t ∈ Set.Ico (0 : ℝ) 1, x' + t • (y - x') ∈ frontier K := by
  have hx' : x ∈ closure (interior K) := by
    rw [hconvex.closure_interior_eq_closure_of_nonempty_interior hsolid]
    exact subset_closure hx
  obtain ⟨x', hin, hdist⟩ := Metric.mem_closure_iff.mp hx' ε hε
  obtain ⟨z, hz, hfrontier⟩ := exists_mem_segment_frontier (interior_subset hin) hy
  rw [segment_eq_image'] at hz
  obtain ⟨t, ⟨h0, h1⟩, rfl⟩ := hz
  refine ⟨x', hin, hdist, t, ⟨h0, lt_of_le_of_ne h1 ?_⟩, hfrontier⟩
  rintro rfl
  have hend := hclosed.frontier_subset hfrontier
  simp only [one_smul, add_sub_cancel] at hend
  exact hy hend

end ConvexRegion
