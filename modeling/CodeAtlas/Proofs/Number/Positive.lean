import Mathlib

namespace CodeAtlas.Number

open Float.Model (Format UnpackedFloat totalExponent)
open Float.Model.UnpackedFloat

/-- A number of one or more, taken apart: no bits of its mantissa are missing. -/
inductive AtLeastOne : UnpackedFloat → Prop where
  | infinity : AtLeastOne (.infinity .positive)
  | finite (m : Nat) (e : Int) (h : 0 < m) (hm : m.log2 = 23) (he : -23 ≤ e) :
      AtLeastOne (.finite .positive m e h)

theorem log2_div_pow (m k : Nat) : (m / 2 ^ k).log2 = m.log2 - k := by
  induction k with
  | zero => simp
  | succ k ih =>
    rw [Nat.pow_succ, ← Nat.div_div_eq_div_mul, Nat.log2_eq_log_two, Nat.log_div_base,
      ← Nat.log2_eq_log_two, ih, Nat.sub_sub]

theorem log2_shiftLeft (m k : Nat) (h : m ≠ 0) : (m <<< k).log2 = m.log2 + k := by
  induction k with
  | zero => rfl
  | succ k ih =>
    have hk : m <<< k ≠ 0 := by
      rw [Nat.shiftLeft_eq]
      exact Nat.mul_ne_zero h (Nat.two_pow_pos k).ne'
    rw [Nat.shiftLeft_succ, Nat.log2_two_mul hk, ih, Nat.add_assoc]

theorem ne_zero_of_log2 (m : Nat) (h : m.log2 = 23) : m ≠ 0 := by
  rintro rfl
  simp at h

theorem mantissa_shiftRight (em : ExtendedMantissa) (k : Nat) :
    (em >>> k).mantissa = em.mantissa / 2 ^ k := by
  induction k with
  | zero => exact (Nat.div_one _).symm
  | succ k ih =>
    have hs : (em >>> (k + 1)).mantissa = (em >>> k).mantissa / 2 := rfl
    rw [hs, ih, Nat.div_div_eq_div_mul, Nat.pow_succ]

theorem le_roundedMantissa (em : ExtendedMantissa) : em.mantissa ≤ em.roundedMantissa := by
  obtain ⟨m, r, s⟩ := em
  cases r <;> cases s
  · exact Nat.le_refl m
  · exact Nat.le_refl m
  · exact Nat.le_add_right m (m % 2)
  · exact Nat.le_add_right m 1

theorem shiftToTargetExponent_spec (m : Nat) (e : Int) (hm : 23 ≤ m.log2) (he : 0 ≤ m.log2 + e) :
    (shiftToTargetExponent .binary32 m e .exact).1.mantissa.log2 = 23 ∧
      (shiftToTargetExponent .binary32 m e .exact).2 = e + m.log2 - 23 := by
  have ht : (Format.binary32.targetExponent (totalExponent m e) - e).toNat = m.log2 - 23 := by
    simp only [Format.targetExponent, totalExponent, Format.minExponent, Format.mantissaBits]
    omega
  simp only [shiftToTargetExponent, shiftToExponent, ht, mantissa_shiftRight,
    ExtendedMantissa.ofMantissaAndAccuracy, log2_div_pow]
  omega

theorem atLeastOne_roundWithAccuracy (m : Nat) (e : Int) (hm : 23 ≤ m.log2)
    (he : 0 ≤ m.log2 + e) : AtLeastOne (roundWithAccuracy .binary32 .positive m e .exact) := by
  obtain ⟨hcut, hexp⟩ := shiftToTargetExponent_spec m e hm he
  simp only [roundWithAccuracy]
  generalize shiftToTargetExponent .binary32 m e .exact = s at hcut hexp ⊢
  have hr : 23 ≤ s.1.roundedMantissa.log2 := by
    have hle := le_roundedMantissa s.1
    have hne := ne_zero_of_log2 _ hcut
    rw [Nat.le_log2 (by omega)]
    exact ((Nat.le_log2 hne).mp (Nat.le_of_eq hcut.symm)).trans hle
  obtain ⟨hcut', hexp'⟩ := shiftToTargetExponent_spec s.1.roundedMantissa s.2 hr (by omega)
  rw [dif_neg (ne_zero_of_log2 _ hcut')]
  exact .finite _ _ _ hcut' (by omega)

theorem atLeastOne_round (m : Nat) (hm : m ≠ 0) :
    AtLeastOne (UnpackedFloat.round .binary32 .positive m 0) := by
  simp only [UnpackedFloat.round, decreaseExponent]
  apply atLeastOne_roundWithAccuracy <;> rw [log2_shiftLeft m _ hm] <;>
    simp only [Format.targetExponent, totalExponent, Format.minExponent, Format.mantissaBits] <;>
    omega

theorem AtLeastOne.mul (a b : UnpackedFloat) (ha : AtLeastOne a) (hb : AtLeastOne b) :
    AtLeastOne (UnpackedFloat.mul .binary32 a b) := by
  cases ha with
  | infinity => cases hb <;> exact .infinity
  | finite m e h hm he =>
    cases hb with
    | infinity => exact .infinity
    | finite m' e' h' hm' he' =>
      have hprod : 46 ≤ (m * m').log2 := by
        rw [Nat.le_log2 (Nat.mul_pos h h').ne']
        have hl := (Nat.le_log2 h.ne').mp (Nat.le_of_eq hm.symm)
        have hl' := (Nat.le_log2 h'.ne').mp (Nat.le_of_eq hm'.symm)
        calc 2 ^ 46 = 2 ^ 23 * 2 ^ 23 := by decide
          _ ≤ m * m' := Nat.mul_le_mul hl hl'
      exact atLeastOne_roundWithAccuracy _ _ (by omega) (by omega)

theorem toNat_one_append (mantissa : BitVec 23) :
    (1#1 ++ mantissa).toNat = 2 ^ 23 + mantissa.toNat := by
  rw [BitVec.toNat_append, ← Nat.shiftLeft_add_eq_or_of_lt mantissa.isLt]
  rfl

theorem atLeastOne_unpack_normal (exponent : BitVec 8) (mantissa : BitVec 23)
    (h : 127 ≤ exponent.toNat) (h' : exponent.toNat < 255) :
    AtLeastOne (UnpackedFloat.unpack .binary32
      (packComponents .binary32 .positive exponent mantissa)) := by
  have hinf : exponent ≠ -1#8 := by
    rintro rfl
    exact absurd h' (by decide)
  have hzero : exponent ≠ 0#8 := by
    rintro rfl
    exact absurd h (by decide)
  simp only [UnpackedFloat.unpack, unpackExponent_packComponents, unpackMantissa_packComponents,
    unpackSign_packComponents, if_neg hinf, if_neg hzero]
  refine .finite _ _ _ ?_ ?_
  · have hlt := mantissa.isLt
    rw [toNat_one_append, Nat.log2_eq_iff (by omega)]
    omega
  · have hbias : Format.binary32.exponentBias = 127 := rfl
    rw [hbias]
    omega

theorem AtLeastOne.unpack_pack (f : UnpackedFloat) (h : AtLeastOne f) :
    AtLeastOne (UnpackedFloat.unpack .binary32 (UnpackedFloat.pack .binary32 f)) := by
  cases h with
  | infinity => exact .infinity
  | finite m e hpos hm he =>
    have hbias : Format.binary32.exponentBias = 127 := rfl
    have hbits : m.log2 + 1 = Format.binary32.mantissaBits := by rw [hm]; rfl
    simp only [UnpackedFloat.pack, hbias, if_pos hbits]
    split
    · exact .infinity
    · apply atLeastOne_unpack_normal <;> rw [BitVec.toNat_ofNat] <;> omega

theorem AtLeastOne.zero_lt (f : UnpackedFloat) (h : AtLeastOne f) :
    UnpackedFloat.lt (.zero .positive) f = true := by
  cases h <;> rfl

theorem unpack_zero : (0 : Float32).toModel.unpack = .zero .positive := by
  rfl

theorem AtLeastOne.pos (x : Float32) (h : AtLeastOne x.toModel.unpack) : 0 < x := by
  have hlt := h.zero_lt
  rw [← unpack_zero] at hlt
  exact decide_eq_true hlt

theorem atLeastOne_ofUInt64 (n : UInt64) (h : n.toNat ≠ 0) :
    AtLeastOne (UnpackedFloat.ofUInt64 .binary32 n) := by
  have hc : compare (n.toNat : Int) 0 = .gt := by
    rw [compare_gt_iff_gt]
    omega
  simp only [UnpackedFloat.ofUInt64, UnpackedFloat.ofNat, UnpackedFloat.ofInt,
    UnpackedFloat.normalize, hc]
  exact atLeastOne_round _ h

theorem atLeastOne_ofScientific (n : Nat) (h : n ≠ 0) :
    AtLeastOne (UnpackedFloat.ofScientific .binary32 n 0) := by
  have hlow : ¬ (0 : Int) < -((2 ^ 8 : Int) + n.log2) := by omega
  have hshift := log2_shiftLeft n 24 h
  have hround := atLeastOne_roundWithAccuracy (n <<< 24) (-24) (by omega) (by omega)
  rw [UnpackedFloat.ofScientific, dif_neg h, if_neg (by decide), if_neg hlow, if_pos (by decide)]
  rw [← Nat.mul_one (n <<< 24)] at hround
  exact hround

theorem unpack_one : Float32.exactlyRepresentablePowersOfTen[0].toModel.unpack =
    .finite .positive (2 ^ 23) (-23) (by decide) := by
  rfl

theorem ofNat_pos (n : Nat) (h : 0 < n) : 0 < Float32.ofNat n := by
  apply AtLeastOne.pos
  show AtLeastOne (Float32.ofScientific n false 0).toModel.unpack
  rw [Float32.ofScientific]
  split
  · next hn =>
    simp only [Bool.false_eq_true, if_false]
    apply AtLeastOne.unpack_pack
    apply AtLeastOne.mul
    · apply AtLeastOne.unpack_pack
      apply atLeastOne_ofUInt64
      have hmod : n.toUInt64.toNat = n % 2 ^ 64 := rfl
      omega
    · rw [unpack_one]
      exact .finite _ _ _ (by decide) (by decide)
  · apply AtLeastOne.unpack_pack
    exact atLeastOne_ofScientific n h.ne'

theorem not_le_zero_of_pos (x : Float32) (h : 0 < x) : ¬ x ≤ 0 := by
  have hlt : UnpackedFloat.lt (.zero .positive) x.toModel.unpack = true := by
    rw [← unpack_zero]
    exact of_decide_eq_true h
  intro hx
  have hle : UnpackedFloat.le x.toModel.unpack (.zero .positive) = true := by
    rw [← unpack_zero]
    exact of_decide_eq_true hx
  generalize x.toModel.unpack = f at hlt hle
  cases f with
  | notANumber => cases hlt
  | zero => cases hlt
  | infinity s =>
    cases s with
    | positive => cases hle
    | negative => cases hlt
  | finite s =>
    cases s with
    | positive => cases hle
    | negative => cases hlt

end CodeAtlas.Number
