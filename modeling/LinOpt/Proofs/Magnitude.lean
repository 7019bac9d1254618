import Mathlib
import LinOpt.Proofs.Arithmetic
import LinOpt.Scalar.Float

/-!
# Magnitudes of doubles

A double above a tolerance or below its negative has a magnitude above it (`Scalar.Measured`),
undefined values and infinite ones included. This is seen on signs, exponents and mantissas: a
change of sign keeps the other two, and a double is made up of them without loss
(`Double.unpack_pack_withSign`).
-/

namespace LinOpt.Double

open Float.Model (Format UnpackedFloat)
open Float.Model.UnpackedFloat (Sign)

variable {x t : UnpackedFloat}

/-! ## Signs -/

/-- The value with another sign. -/
def withSign (s : Sign) : UnpackedFloat → UnpackedFloat
  | .notANumber => .notANumber
  | .infinity _ => .infinity s
  | .zero _ => .zero s
  | .finite _ m e pos => .finite s m e pos

/-- Negation changes the sign, if at all. -/
theorem exists_neg_eq (x : UnpackedFloat) : ∃ s, x.neg = withSign s x := by
  cases x with
  | notANumber => exact ⟨.positive, rfl⟩
  | infinity s | zero s | finite s => exact ⟨-s, rfl⟩

/-- The magnitude is the value with a positive sign. -/
theorem abs_eq (x : UnpackedFloat) : x.abs = withSign .positive x := by cases x <;> rfl

/-- Negation keeps the magnitude. -/
theorem abs_neg (x : UnpackedFloat) : x.neg.abs = x.abs := by cases x <;> rfl

/-- A double is made up of its sign, exponent and mantissa. -/
theorem unpack_pack_unpack (b : BitVec 64) :
    UnpackedFloat.unpack .binary64 ((UnpackedFloat.unpack .binary64 b).pack .binary64) =
      UnpackedFloat.unpack .binary64 b := by
  rw [UnpackedFloat.pack_unpack]
  split_ifs with hnan
  · obtain ⟨hexponent, hmantissa⟩ := of_decide_eq_true hnan
    rw [UnpackedFloat.unpack_packedNaN]
    simp [UnpackedFloat.unpack, hexponent, hmantissa]
  · rfl

/-- Another sign stands for another bit. -/
theorem exists_unpack_eq_withSign (s : Sign) (b : BitVec 64) :
    ∃ b', UnpackedFloat.unpack .binary64 b' = withSign s (UnpackedFloat.unpack .binary64 b) := by
  refine ⟨UnpackedFloat.packComponents .binary64 s (UnpackedFloat.unpackExponent b)
    (UnpackedFloat.unpackMantissa b), ?_⟩
  unfold UnpackedFloat.unpack
  simp only [UnpackedFloat.unpackExponent_packComponents,
    UnpackedFloat.unpackMantissa_packComponents, UnpackedFloat.unpackSign_packComponents,
    Sign.ofBitVec_toBitVec]
  split_ifs <;> rfl

/-- A double with another sign is made up of its parts as well. -/
theorem unpack_pack_withSign (s : Sign) (x : Float) :
    UnpackedFloat.unpack .binary64 ((withSign s x.toModel.unpack).pack .binary64) =
      withSign s x.toModel.unpack := by
  obtain ⟨b, hb⟩ := exists_unpack_eq_withSign s x.toModel.toBits.toBitVec
  exact hb ▸ unpack_pack_unpack b

/-- The parts of a negated double. -/
theorem unpack_neg (x : Float) : (-x).toModel.unpack = x.toModel.unpack.neg := by
  obtain ⟨s, hs⟩ := exists_neg_eq x.toModel.unpack
  rw [hs]
  exact (congrArg _ (congrArg _ hs)).trans (unpack_pack_withSign s x)

/-- The parts of the magnitude of a double. -/
theorem unpack_abs (x : Float) : x.abs.toModel.unpack = x.toModel.unpack.abs := by
  rw [abs_eq]
  exact (congrArg _ (congrArg _ (abs_eq _))).trans (unpack_pack_withSign .positive x)

/-! ## Comparison -/

/-- Comparing exponents and then mantissas the other way round turns the result round. -/
theorem swap_then_compare (e e' : ℤ) (m m' : ℕ) :
    ((compare e e').then (compare m m')).swap = (compare e' e).then (compare m' m) := by
  rw [Ordering.swap_then, ← Std.OrientedCmp.eq_swap, ← Std.OrientedCmp.eq_swap]

/-- A value above another one has a magnitude above it. -/
theorem lt_abs_of_lt (h : t.lt x = true) : t.lt x.abs = true := by
  obtain (_ | _) | _ | (_ | _) | ⟨_ | _, m, e, hm⟩ := x <;>
    obtain (_ | _) | _ | (_ | _) | ⟨_ | _, m', e', hm'⟩ := t <;>
      first | exact h | rfl | cases h

/-- Negation turns the order around. -/
theorem lt_neg_of_lt_neg (h : x.lt t.neg = true) : t.lt x.neg = true := by
  obtain (_ | _) | _ | (_ | _) | ⟨_ | _, m, e, hm⟩ := x <;>
    obtain (_ | _) | _ | (_ | _) | ⟨_ | _, m', e', hm'⟩ := t <;>
      first | exact h | rfl | cases h | skip
  · have heq := congrArg (fun o => some o == some Ordering.lt) (swap_then_compare e e' m m')
    exact heq.symm.trans h
  · have heq := congrArg (fun o => some o == some Ordering.lt) (swap_then_compare e' e m' m)
    exact heq.trans h

/-- Doubles are compared by their parts. -/
theorem lt_iff (x y : Float) : x < y ↔ x.toModel.unpack.lt y.toModel.unpack = true :=
  decide_eq_true_iff

instance : Scalar.Measured Float where
  lt_abs t x h := by
    change t < x ∨ x < -t at h
    change t < x.abs
    rw [lt_iff, unpack_abs]
    rw [lt_iff, lt_iff, unpack_neg] at h
    rcases h with h | h
    · exact lt_abs_of_lt h
    · rw [← abs_neg]
      exact lt_abs_of_lt (lt_neg_of_lt_neg h)

end LinOpt.Double
