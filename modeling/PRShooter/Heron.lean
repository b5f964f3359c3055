import Mathlib.Analysis.InnerProductSpace.Basic
import Mathlib.Analysis.Normed.Group.AddTorsor
import Mathlib.LinearAlgebra.AffineSpace.AffineSubspace.Basic
import Mathlib.Topology.MetricSpace.HausdorffDistance

/-!
# Heron's formula

What Heron's formula takes the root of, for three points of any metric space, and what it is in a
Euclidean space of any dimension. The triangle inequality keeps it from being negative
(`radicand_nonneg`). Twice its root over the length of a side is the distance of the third point
from the line through that side (`infDist_line`). The points may coincide or be collinear.
-/

namespace Heron

section Metric

variable {P : Type*} [PseudoMetricSpace P] (a b c : P)

/-- Half the perimeter of the triangle. -/
noncomputable def semiperimeter : ℝ := (dist a b + dist b c + dist c a) / (2 : ℕ)

/-- The square of the area, by Heron's formula. -/
noncomputable def radicand : ℝ :=
  semiperimeter a b c * (semiperimeter a b c - dist a b) * (semiperimeter a b c - dist b c)
    * (semiperimeter a b c - dist c a)

theorem semiperimeter_nonneg : 0 ≤ semiperimeter a b c := by
  unfold semiperimeter
  positivity

theorem semiperimeter_rotate : semiperimeter b c a = semiperimeter a b c := by
  unfold semiperimeter
  ring

theorem radicand_rotate : radicand b c a = radicand a b c := by
  unfold radicand
  rw [semiperimeter_rotate]
  ring

/-- No side is longer than half the perimeter. -/
theorem dist_le_semiperimeter : dist a b ≤ semiperimeter a b c := by
  have htriangle := dist_triangle_right a b c
  rw [dist_comm a c] at htriangle
  unfold semiperimeter
  push_cast
  linarith

theorem radicand_nonneg : 0 ≤ radicand a b c := by
  have hab := dist_le_semiperimeter a b c
  have hbc := dist_le_semiperimeter b c a
  have hca := dist_le_semiperimeter c a b
  rw [semiperimeter_rotate] at hbc
  rw [← semiperimeter_rotate] at hca
  have hs := semiperimeter_nonneg a b c
  exact mul_nonneg (mul_nonneg (mul_nonneg hs (sub_nonneg.mpr hab)) (sub_nonneg.mpr hbc))
    (sub_nonneg.mpr hca)

end Metric

section Euclidean

open scoped RealInnerProductSpace

variable {V P : Type*} [NormedAddCommGroup V] [InnerProductSpace ℝ V] [PseudoMetricSpace P]
  [NormedAddTorsor V P]

/-- The square of the area of the parallelogram that two vectors span. -/
noncomputable def gram (u v : V) : ℝ := ‖u‖ ^ 2 * ‖v‖ ^ 2 - ⟪u, v⟫ ^ 2

/-- Heron's formula is about half of it. -/
theorem radicand_eq (a b c : P) : radicand a b c = gram (b -ᵥ a) (c -ᵥ a) / 4 := by
  have hbc : dist b c = ‖(b -ᵥ a) - (c -ᵥ a)‖ := by
    rw [vsub_sub_vsub_cancel_right, dist_eq_norm_vsub V]
  -- the law of cosines
  have hcosine := norm_sub_sq_real (b -ᵥ a) (c -ᵥ a)
  rw [← hbc] at hcosine
  have hinner : 2 * ⟪b -ᵥ a, c -ᵥ a⟫ = ‖b -ᵥ a‖ ^ 2 + ‖c -ᵥ a‖ ^ 2 - dist b c ^ 2 := by
    rw [hcosine]
    ring
  have hgram : gram (b -ᵥ a) (c -ᵥ a) = (4 * ‖b -ᵥ a‖ ^ 2 * ‖c -ᵥ a‖ ^ 2
      - (‖b -ᵥ a‖ ^ 2 + ‖c -ᵥ a‖ ^ 2 - dist b c ^ 2) ^ 2) / 4 := by
    rw [← hinner, gram]
    ring
  unfold radicand semiperimeter
  rw [hgram, dist_comm a b, dist_eq_norm_vsub V b a, dist_eq_norm_vsub V c a]
  push_cast
  ring

/-- A vector that is moved along another: the square of the area, and how far it is from being
orthogonal. -/
theorem norm_sq_mul_norm_sub_smul_sq (u v : V) (t : ℝ) :
    ‖u‖ ^ 2 * ‖v - t • u‖ ^ 2 = gram u v + (t * ‖u‖ ^ 2 - ⟪u, v⟫) ^ 2 := by
  rw [norm_sub_sq_real, inner_smul_right, norm_smul, real_inner_comm, mul_pow, Real.norm_eq_abs,
    sq_abs]
  unfold gram
  ring

/-- The points of the line, seen from another one. -/
theorem dist_lineMap (a b c : P) (t : ℝ) :
    dist a (AffineMap.lineMap b c t) = ‖(a -ᵥ b) - t • (c -ᵥ b)‖ := by
  rw [dist_eq_norm_vsub V, AffineMap.lineMap_apply, vsub_vadd_eq_vsub_sub]

/-- **Height.** The distance of a point from the line through two others. -/
theorem infDist_line (a : P) {b c : P} (h : dist b c ≠ 0) :
    Metric.infDist a (affineSpan ℝ {b, c} : Set P) = 2 * √(radicand a b c) / dist b c := by
  have hbc : dist b c = ‖c -ᵥ b‖ := dist_eq_norm_vsub' V b c
  have hlength : 0 < ‖c -ᵥ b‖ := hbc ▸ lt_of_le_of_ne dist_nonneg (Ne.symm h)
  have hgram : gram (c -ᵥ b) (a -ᵥ b) = (2 * √(radicand a b c)) ^ 2 := by
    rw [mul_pow, Real.sq_sqrt (radicand_nonneg a b c), ← radicand_rotate, radicand_eq b c a]
    ring
  have hroot : 0 ≤ 2 * √(radicand a b c) := by positivity
  refine le_antisymm ?_ ?_
  · -- the foot of the perpendicular
    have hfoot : AffineMap.lineMap b c (⟪c -ᵥ b, a -ᵥ b⟫ / ‖c -ᵥ b‖ ^ 2)
        ∈ (affineSpan ℝ {b, c} : Set P) := AffineMap.lineMap_mem_affineSpan_pair _ b c
    refine (Metric.infDist_le_dist_of_mem hfoot).trans_eq ?_
    have hsq := norm_sq_mul_norm_sub_smul_sq (c -ᵥ b) (a -ᵥ b) (⟪c -ᵥ b, a -ᵥ b⟫ / ‖c -ᵥ b‖ ^ 2)
    rw [div_mul_cancel₀ _ (pow_pos hlength 2).ne', sub_self, zero_pow two_ne_zero, add_zero, hgram,
      ← mul_pow, sq_eq_sq₀ (by positivity) hroot] at hsq
    rw [dist_lineMap, eq_div_iff h, hbc, mul_comm]
    exact hsq
  · refine (Metric.le_infDist ⟨b, left_mem_affineSpan_pair ℝ b c⟩).mpr fun z hz => ?_
    obtain ⟨t, rfl⟩ := mem_affineSpan_pair_iff_exists_lineMap_eq.mp hz
    have hsq := norm_sq_mul_norm_sub_smul_sq (c -ᵥ b) (a -ᵥ b) t
    rw [hgram, ← mul_pow] at hsq
    rw [dist_lineMap, hbc, div_le_iff₀' hlength]
    have hnonneg : 0 ≤ ‖c -ᵥ b‖ * ‖(a -ᵥ b) - t • (c -ᵥ b)‖ := by positivity
    refine (sq_le_sq₀ hroot hnonneg).mp ?_
    rw [hsq]
    exact le_add_of_nonneg_right (sq_nonneg _)

end Euclidean

end Heron
