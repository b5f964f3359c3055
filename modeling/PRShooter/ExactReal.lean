import PRShooter.HandleMessage
import Mathlib.Data.BitVec
import Mathlib.Data.Fintype.Lattice
import Mathlib.Analysis.SpecialFunctions.Trigonometric.Basic

/-!
# Exact real arithmetic

The instance of the host's arithmetic at the real numbers: `double` and `float` are read as exact
reals, and the bits received from a client as the real number they stand for.
-/

namespace PRShooter

noncomputable section

instance : HasSqrt ℝ := ⟨Real.sqrt⟩
instance : Trig ℝ ℝ := ⟨Real.cos, Real.sin⟩

/-- Truncation toward zero. -/
instance : ToInt ℝ := ⟨fun x => if 0 ≤ x then ⌊x⌋ else ⌈x⌉⟩

/-- The value of an IEEE 754 word with `e` exponent bits and `f` fraction bits. The formula is
used for the words of infinities and NaNs too: it puts them beyond every finite value. -/
def ieeeValue (e f w : ℕ) : ℝ :=
  let fraction : ℝ := (w % 2 ^ f : ℕ)
  let exponent := w / 2 ^ f % 2 ^ e
  let sign : ℝ := if w / 2 ^ (e + f) % 2 = 1 then -1 else 1
  let bias : ℤ := 2 ^ (e - 1) - 1
  if exponent = 0 then sign * (fraction * 2 ^ (1 - bias - f))
  else sign * ((2 ^ f + fraction) * 2 ^ ((exponent : ℤ) - bias - f))

instance : OfWord 64 ℝ := ⟨fun w => ieeeValue 11 52 w.toNat⟩
instance : OfWord 32 ℝ := ⟨fun w => ieeeValue 8 23 w.toNat⟩

instance finite_bitVec (w : ℕ) : Finite (BitVec w) := Finite.of_equiv _ BitVec.equivFin.symm.toEquiv

/-- A number is sent as a word whose value is nearest to it. -/
instance (w : ℕ) [OfWord w ℝ] : ToWord w ℝ :=
  ⟨fun x => (Finite.exists_min fun word : BitVec w => |ofWord word - x|).choose⟩

/-- No word is nearer to a number than the one it is sent as. -/
theorem abs_ofWord_toWord_sub_le {w : ℕ} [OfWord w ℝ] (x : ℝ) (word : BitVec w) :
    |ofWord (toWord x : BitVec w) - x| ≤ |ofWord word - x| :=
  (Finite.exists_min fun word : BitVec w => |ofWord word - x|).choose_spec word

/-- A number that a word stands for is sent without loss. -/
theorem ofWord_toWord_ofWord {w : ℕ} [OfWord w ℝ] (word : BitVec w) :
    (ofWord (toWord (ofWord word : ℝ) : BitVec w) : ℝ) = ofWord word := by
  have hle := abs_ofWord_toWord_sub_le (ofWord word : ℝ) word
  rw [sub_self, abs_zero] at hle
  exact sub_eq_zero.mp (abs_nonpos_iff.mp hle)

theorem sqrt_eq (x : ℝ) : sqrt x = Real.sqrt x := rfl
theorem cos_eq (x : ℝ) : (Trig.cos x : ℝ) = Real.cos x := rfl
theorem sin_eq (x : ℝ) : (Trig.sin x : ℝ) = Real.sin x := rfl

theorem toInt_intCast (n : ℤ) : toInt (n : ℝ) = n := by
  show (if (0 : ℝ) ≤ n then ⌊(n : ℝ)⌋ else ⌈(n : ℝ)⌉) = n
  split_ifs <;> simp

theorem toInt_ofNat (n : ℕ) [n.AtLeastTwo] : toInt (ofNat(n) : ℝ) = ofNat(n) := by
  exact_mod_cast toInt_intCast (OfNat.ofNat n)

theorem toInt_neg_ofNat (n : ℕ) [n.AtLeastTwo] : toInt (-ofNat(n) : ℝ) = -ofNat(n) := by
  have h := toInt_intCast (-OfNat.ofNat n)
  rwa [Int.cast_neg, Int.cast_ofNat] at h

end

end PRShooter
