import Mathlib
import CodeAtlas.Number.Single

namespace CodeAtlas.Number

open Float.Model (Format UnpackedFloat)
open Float.Model.UnpackedFloat

section Fields

variable (spec : Format) (b : BitVec spec.numBits)

theorem toNat_unpackMantissa :
    (unpackMantissa b).toNat = b.toNat % 2 ^ spec.mantissaBitsWithoutImplicit := by
  have hm := spec.hm
  simp only [unpackMantissa, BitVec.extractLsb, BitVec.toNat_cast, BitVec.extractLsb'_toNat,
    Nat.shiftRight_zero]
  congr 2
  omega

theorem toNat_unpackExponent :
    (unpackExponent b).toNat =
      b.toNat / 2 ^ spec.mantissaBitsWithoutImplicit % 2 ^ spec.exponentBits := by
  have he := spec.he
  simp only [unpackExponent, BitVec.extractLsb, BitVec.toNat_cast, BitVec.extractLsb'_toNat,
    Nat.shiftRight_eq_div_pow]
  congr 2
  omega

def signOf : Sign :=
  if 2 ^ (spec.mantissaBitsWithoutImplicit + spec.exponentBits) ≤ b.toNat then .negative
  else .positive

theorem ofBitVec_unpackSign : Sign.ofBitVec (unpackSign b) = signOf spec b := by
  have hlt : b.toNat < 2 ^ (spec.mantissaBitsWithoutImplicit + spec.exponentBits) * 2 := by
    have hbits : spec.numBits = spec.mantissaBitsWithoutImplicit + spec.exponentBits + 1 := by
      unfold Format.numBits
      omega
    exact b.isLt.trans_eq (by rw [hbits, Nat.pow_succ])
  have hdiv := Nat.div_lt_of_lt_mul hlt
  have hsign : (unpackSign b).toNat =
      b.toNat / 2 ^ (spec.mantissaBitsWithoutImplicit + spec.exponentBits) := by
    simp only [unpackSign, BitVec.extractLsb, BitVec.toNat_cast, BitVec.extractLsb'_toNat,
      Nat.shiftRight_eq_div_pow, Nat.sub_self, Nat.zero_add, Nat.pow_one]
    exact Nat.mod_eq_of_lt hdiv
  have hpositive : unpackSign b = 0#1 ↔
      ¬ 2 ^ (spec.mantissaBitsWithoutImplicit + spec.exponentBits) ≤ b.toNat := by
    rw [← BitVec.toNat_inj, hsign, BitVec.toNat_ofNat, Nat.zero_mod,
      Nat.div_eq_zero_iff_lt (Nat.two_pow_pos _), Nat.not_le]
  simp only [Sign.ofBitVec, signOf, hpositive, ite_not]

/-- What a packed number stands for, by the numbers in its fields. -/
theorem unpack_cases :
    let mantissa := b.toNat % 2 ^ spec.mantissaBitsWithoutImplicit
    let exponent := b.toNat / 2 ^ spec.mantissaBitsWithoutImplicit % 2 ^ spec.exponentBits
    let least : Int := -(spec.exponentBias + spec.mantissaBitsWithoutImplicit)
    (exponent = 2 ^ spec.exponentBits - 1 ∧ mantissa = 0 ∧
      UnpackedFloat.unpack spec b = .infinity (signOf spec b)) ∨
    (exponent = 2 ^ spec.exponentBits - 1 ∧ mantissa ≠ 0 ∧
      UnpackedFloat.unpack spec b = .notANumber) ∨
    (exponent ≠ 2 ^ spec.exponentBits - 1 ∧ exponent = 0 ∧ mantissa = 0 ∧
      UnpackedFloat.unpack spec b = .zero (signOf spec b)) ∨
    (exponent ≠ 2 ^ spec.exponentBits - 1 ∧ exponent = 0 ∧ ∃ h : 0 < mantissa,
      UnpackedFloat.unpack spec b = .finite (signOf spec b) mantissa (least + 1) h) ∨
    (exponent ≠ 2 ^ spec.exponentBits - 1 ∧ exponent ≠ 0 ∧ ∃ h,
      UnpackedFloat.unpack spec b = .finite (signOf spec b)
        (2 ^ spec.mantissaBitsWithoutImplicit + mantissa) (exponent + least) h) := by
  have hones : unpackExponent b = -1#_ ↔
      (unpackExponent b).toNat = 2 ^ spec.exponentBits - 1 := by
    rw [← BitVec.toNat_inj, BitVec.neg_one_eq_allOnes, BitVec.toNat_allOnes]
  have hnone : unpackExponent b = 0#_ ↔ (unpackExponent b).toNat = 0 := by
    rw [← BitVec.toNat_inj, BitVec.toNat_ofNat, Nat.zero_mod]
  have hzero : unpackMantissa b = 0#_ ↔ (unpackMantissa b).toNat = 0 := by
    rw [← BitVec.toNat_inj, BitVec.toNat_ofNat, Nat.zero_mod]
  have hnormal : (1#1 ++ unpackMantissa b).toNat =
      2 ^ spec.mantissaBitsWithoutImplicit + (unpackMantissa b).toNat := by
    rw [BitVec.toNat_append, ← Nat.shiftLeft_add_eq_or_of_lt (unpackMantissa b).isLt]
    simp [Nat.shiftLeft_eq]
  intro mantissa exponent least
  have hm : (unpackMantissa b).toNat = mantissa := toNat_unpackMantissa spec b
  have he : (unpackExponent b).toNat = exponent := toNat_unpackExponent spec b
  rw [he] at hones hnone
  rw [hm] at hzero hnormal
  simp only [UnpackedFloat.unpack, ofBitVec_unpackSign, hones, hnone, hzero, hm, he, hnormal]
  by_cases h1 : exponent = 2 ^ spec.exponentBits - 1
  · by_cases h2 : mantissa = 0
    · exact Or.inl ⟨h1, h2, by rw [if_pos h1, if_pos h2]⟩
    · exact Or.inr (Or.inl ⟨h1, h2, by rw [if_pos h1, if_neg h2]⟩)
  by_cases h2 : exponent = 0
  · by_cases h3 : mantissa = 0
    · exact Or.inr (Or.inr (Or.inl ⟨h1, h2, h3, by rw [if_neg h1, if_pos h2, dif_pos h3]⟩))
    · refine Or.inr (Or.inr (Or.inr (Or.inl ⟨h1, h2, Nat.pos_of_ne_zero h3, ?_⟩)))
      rw [if_neg h1, if_pos h2, dif_neg h3, h2]
      congr 1
      omega
  · refine Or.inr (Or.inr (Or.inr (Or.inr ⟨h1, h2, Nat.lt_add_right _ (Nat.two_pow_pos _), ?_⟩)))
    rw [if_neg h1, if_neg h2]
    rfl

end Fields

theorem log2_of_unpack (spec : Format) (b : BitVec spec.numBits) (s : Sign) (m : Nat) (e : Int)
    (h : 0 < m) (hu : UnpackedFloat.unpack spec b = .finite s m e h) :
    m.log2 ≤ spec.mantissaBitsWithoutImplicit := by
  have hlt : b.toNat % 2 ^ spec.mantissaBitsWithoutImplicit <
      2 ^ spec.mantissaBitsWithoutImplicit := Nat.mod_lt _ (Nat.two_pow_pos _)
  have hm : m < 2 ^ (spec.mantissaBitsWithoutImplicit + 1) := by
    rw [Nat.pow_succ]
    obtain ⟨_, _, hc⟩ | ⟨_, _, hc⟩ | ⟨_, _, _, hc⟩ | ⟨_, _, _, hc⟩ | ⟨_, _, _, hc⟩ :=
      unpack_cases spec b
    all_goals
      rw [hu] at hc
      injection hc
    all_goals omega
  exact Nat.le_of_lt_succ ((Nat.log2_lt h.ne').mpr hm)

theorem isNaN_unpack (spec : Format) (b : BitVec spec.numBits) :
    (UnpackedFloat.unpack spec b).isNaN = true ↔
      b.toNat / 2 ^ spec.mantissaBitsWithoutImplicit % 2 ^ spec.exponentBits =
        2 ^ spec.exponentBits - 1 ∧ b.toNat % 2 ^ spec.mantissaBitsWithoutImplicit ≠ 0 := by
  obtain ⟨he, hm, hc⟩ | ⟨he, hm, hc⟩ | ⟨he, _, _, hc⟩ | ⟨he, _, _, hc⟩ | ⟨he, _, _, hc⟩ :=
    unpack_cases spec b
  · simp [hc, UnpackedFloat.isNaN, hm]
  · simp [hc, UnpackedFloat.isNaN, he, hm]
  all_goals
    rw [hc]
    exact ⟨Bool.noConfusion, fun h => absurd h.1 he⟩

def isNegative : Sign → Bool
  | .negative => true
  | .positive => false

def partsOf : UnpackedFloat → Parts
  | .notANumber => .notANumber
  | .infinity s => .infinite (isNegative s)
  | .zero s => .finite (isNegative s) 0 (-149)
  | .finite s m e _ => .finite (isNegative s) m e

theorem parts_eq (x : Float32) : parts x = partsOf x.toModel.unpack := by
  have hsign : isNegative (signOf .binary32 x.toModel.toBits.toBitVec) =
      decide (x.toBits.toNat ≥ Nat.pow 2 31) := by
    rw [signOf]
    split
    · next h => exact (decide_eq_true h).symm
    · next h => exact (decide_eq_false h).symm
  have hcases := unpack_cases .binary32 x.toModel.toBits.toBitVec
  have hunpack : x.toModel.unpack = UnpackedFloat.unpack .binary32 x.toModel.toBits.toBitVec := rfl
  simp only [parts, ← hsign, hunpack]
  obtain ⟨he, hm, hc⟩ | ⟨he, hm, hc⟩ | ⟨he, hz, hm, hc⟩ | ⟨he, hz, hm, hc⟩ | ⟨he, hz, hm, hc⟩ :=
    hcases
  · rw [hc]
    exact (if_pos he).trans (if_pos hm)
  · rw [hc]
    exact (if_pos he).trans (if_neg hm)
  · rw [hc]
    refine (if_neg he).trans ((if_pos hz).trans ?_)
    exact congrArg (Parts.finite _ · _) hm
  · rw [hc]
    exact (if_neg he).trans (if_pos hz)
  · rw [hc]
    refine (if_neg he).trans ((if_neg hz).trans ?_)
    simp only [partsOf]
    congr 1

/-- The ranges of a finite number's fields: only the smallest numbers lack a leading bit. -/
theorem ranges_of_unpack (x : Float32) (s : Sign) (m : Nat) (e : Int) (h : 0 < m)
    (hu : x.toModel.unpack = .finite s m e h) :
    m < 2 ^ 24 ∧ e ≤ 104 ∧ (-149 < e → 2 ^ 23 ≤ m) := by
  have hunpack : x.toModel.unpack = UnpackedFloat.unpack .binary32 x.toModel.toBits.toBitVec := rfl
  have hfraction := Nat.mod_lt x.toModel.toBits.toBitVec.toNat (Nat.two_pow_pos 23)
  have hscale := Nat.mod_lt (x.toModel.toBits.toBitVec.toNat / 2 ^ 23) (Nat.two_pow_pos 8)
  obtain ⟨_, _, hc⟩ | ⟨_, _, hc⟩ | ⟨_, _, _, hc⟩ | ⟨hones, _, _, hc⟩ | ⟨hones, _, _, hc⟩ :=
    unpack_cases .binary32 x.toModel.toBits.toBitVec
  all_goals
    rw [← hunpack, hu] at hc
    cases hc
  all_goals
    simp only [Format.exponentBias] at hones ⊢
    omega

end CodeAtlas.Number
