import Mathlib
import CodeAtlas.Number.Single
import CodeAtlas.Proofs.Number.Packing
import CodeAtlas.Proofs.Number.Positive

namespace CodeAtlas.Number

open Float.Model (Format UnpackedFloat totalExponent)
open Float.Model.UnpackedFloat

theorem isNaN_unpack_packComponents (spec : Format) (sign : Sign) (e : BitVec spec.exponentBits)
    (m : BitVec spec.mantissaBitsWithoutImplicit) (h : e ≠ -1#_ ∨ m = 0#_) :
    (UnpackedFloat.unpack spec (packComponents spec sign e m)).isNaN = false := by
  simp only [UnpackedFloat.unpack, unpackExponent_packComponents, unpackMantissa_packComponents]
  obtain he | rfl := h
  · rw [if_neg he]
    split
    · split <;> rfl
    · rfl
  · split
    · rw [if_pos rfl]
      rfl
    · split
      · rw [dif_pos rfl]
        rfl
      · rfl

theorem ofNat_ne_ones (spec : Format) (n : Nat) (h : n + 1 < 2 ^ spec.exponentBits) :
    BitVec.ofNat spec.exponentBits n ≠ -1#_ := by
  intro he
  have hn := congrArg BitVec.toNat he
  rw [BitVec.toNat_ofNat, Nat.mod_eq_of_lt (by omega), BitVec.neg_one_eq_allOnes,
    BitVec.toNat_allOnes] at hn
  omega

theorem pack_finite (spec : Format) (s : Sign) (m : Nat) (e : Int) (h : 0 < m)
    (hlarge : ¬ 2 ^ spec.exponentBits ≤
      (e + spec.exponentBias + spec.mantissaBitsWithoutImplicit).toNat + 1) :
    ∃ (n : Nat) (mantissa : _), n + 1 < 2 ^ spec.exponentBits ∧
      (n : Int) ≤ max 0 (e + spec.exponentBias + spec.mantissaBitsWithoutImplicit) ∧
      UnpackedFloat.pack spec (.finite s m e h) =
        packComponents spec s (BitVec.ofNat _ n) mantissa := by
  simp only [UnpackedFloat.pack, if_neg hlarge]
  split
  · exact ⟨_, _, Nat.not_le.mp hlarge, by omega, rfl⟩
  · exact ⟨0, _, Nat.one_lt_two_pow spec.he.ne', by omega, rfl⟩

theorem isNaN_unpack_pack (spec : Format) (f : UnpackedFloat) (hf : f.isNaN = false) :
    (UnpackedFloat.unpack spec (UnpackedFloat.pack spec f)).isNaN = false := by
  cases f with
  | notANumber => cases hf
  | infinity s => exact isNaN_unpack_packComponents spec s _ _ (Or.inr rfl)
  | zero s => exact isNaN_unpack_packComponents spec s _ _ (Or.inr rfl)
  | finite s m e h =>
    by_cases hlarge : 2 ^ spec.exponentBits ≤
        (e + spec.exponentBias + spec.mantissaBitsWithoutImplicit).toNat + 1
    · simp only [UnpackedFloat.pack, if_pos hlarge]
      exact isNaN_unpack_packComponents spec s _ _ (Or.inr rfl)
    · obtain ⟨n, mantissa, hn, _, hpack⟩ := pack_finite spec s m e h hlarge
      rw [hpack]
      exact isNaN_unpack_packComponents spec s _ _ (Or.inl (ofNat_ne_ones spec n hn))

@[simp] theorem isNaN_roundWithAccuracy (spec : Format) (sign : Sign) (m : Nat) (e : Int)
    (accuracy : Accuracy) : (roundWithAccuracy spec sign m e accuracy).isNaN = false := by
  simp only [roundWithAccuracy]
  split <;> rfl

def isRegular : UnpackedFloat → Bool
  | .finite .. => true
  | _ => false

theorem isNaN_mul (spec : Format) (f g : UnpackedFloat) (hf : f.isNaN = false)
    (hg : isRegular g = true) : (UnpackedFloat.mul spec f g).isNaN = false := by
  cases g with
  | finite s m e h =>
    cases f with
    | notANumber => cases hf
    | infinity s' => rfl
    | zero s' => rfl
    | finite s' m' e' h' => exact isNaN_roundWithAccuracy ..
  | _ => cases hg

theorem isNaN_div (spec : Format) (f g : UnpackedFloat) (hf : f.isNaN = false)
    (hg : isRegular g = true) : (UnpackedFloat.div spec f g).isNaN = false := by
  cases g with
  | finite s m e h =>
    cases f with
    | notANumber => cases hf
    | infinity s' => rfl
    | zero s' => rfl
    | finite s' m' e' h' => exact isNaN_roundWithAccuracy ..
  | _ => cases hg

@[simp] theorem isNaN_neg (f : UnpackedFloat) : f.neg.isNaN = f.isNaN := by
  cases f <;> rfl

@[simp] theorem isNaN_ofNat (spec : Format) (n : Nat) :
    (UnpackedFloat.ofNat spec n).isNaN = false := by
  simp only [UnpackedFloat.ofNat, UnpackedFloat.ofInt, UnpackedFloat.normalize]
  split
  · exact isNaN_roundWithAccuracy ..
  · rfl
  · exact isNaN_roundWithAccuracy ..

@[simp] theorem isNaN_ofScientific (spec : Format) (m : Nat) (e : Int) :
    (UnpackedFloat.ofScientific spec m e).isNaN = false := by
  rw [UnpackedFloat.ofScientific]
  split
  · rfl
  split
  · rfl
  split
  · rfl
  split
  · exact isNaN_mul spec _ _ rfl rfl
  · exact isNaN_div spec _ _ rfl rfl

inductive AtMost (k : Int) : UnpackedFloat → Prop where
  | zero (s : Sign) : AtMost k (.zero s)
  | finite (s : Sign) (m : Nat) (e : Int) (h : 0 < m) (he : e ≤ k) : AtMost k (.finite s m e h)

instance (k : Int) : (f : UnpackedFloat) → Decidable (AtMost k f)
  | .notANumber => isFalse (by rintro ⟨⟩)
  | .infinity _ => isFalse (by rintro ⟨⟩)
  | .zero s => isTrue (.zero s)
  | .finite s m e h =>
    decidable_of_iff (e ≤ k) ⟨.finite s m e h, fun hf => by cases hf; assumption⟩

theorem AtMost.isInf_eq (k : Int) (f : UnpackedFloat) (h : AtMost k f) : f.isInf = false := by
  cases h <;> rfl

theorem atMost_unpack_packComponents (spec : Format) (sign : Sign) (n : Nat)
    (m : BitVec spec.mantissaBitsWithoutImplicit) (k : Int) (hn : n + 1 < 2 ^ spec.exponentBits)
    (hk : max 1 (n : Int) - (spec.exponentBias + spec.mantissaBitsWithoutImplicit) ≤ k) :
    AtMost k (UnpackedFloat.unpack spec (packComponents spec sign (BitVec.ofNat _ n) m)) := by
  have htoNat : (BitVec.ofNat spec.exponentBits n).toNat = n := by
    rw [BitVec.toNat_ofNat, Nat.mod_eq_of_lt (by omega)]
  simp only [UnpackedFloat.unpack, unpackExponent_packComponents, unpackMantissa_packComponents,
    if_neg (ofNat_ne_ones spec n hn), htoNat]
  split
  · next hzero =>
    have hn0 : n = 0 := by
      have := congrArg BitVec.toNat hzero
      rwa [htoNat, BitVec.toNat_ofNat, Nat.zero_mod] at this
    split
    · exact .zero _
    · exact .finite _ _ _ _ (by omega)
  · exact .finite _ _ _ _ (by omega)

theorem AtMost.unpack_pack (spec : Format) (k : Int) (f : UnpackedFloat) (h : AtMost k f)
    (hlow : 1 - (spec.exponentBias + spec.mantissaBitsWithoutImplicit) ≤ k)
    (hhigh : k + spec.exponentBias + spec.mantissaBitsWithoutImplicit + 1 < 2 ^ spec.exponentBits) :
    AtMost k (UnpackedFloat.unpack spec (UnpackedFloat.pack spec f)) := by
  cases h with
  | zero s =>
    have hbits := Nat.one_lt_two_pow spec.he.ne'
    exact atMost_unpack_packComponents spec s 0 _ k hbits (by omega)
  | finite s m e hm he =>
    have hlarge : ¬ 2 ^ spec.exponentBits ≤
        (e + spec.exponentBias + spec.mantissaBitsWithoutImplicit).toNat + 1 := by
      zify
      omega
    obtain ⟨n, mantissa, hn, hle, hpack⟩ := pack_finite spec s m e hm hlarge
    rw [hpack]
    exact atMost_unpack_packComponents spec s n _ k hn (by omega)

/-- A number that is packed with its leading bit left out. -/
def isNormal (spec : Format) : UnpackedFloat → Bool
  | .finite _ m e _ =>
    let field := (e + spec.exponentBias + spec.mantissaBitsWithoutImplicit).toNat
    m.log2 + 1 = spec.mantissaBits && 0 < field && field + 1 < 2 ^ spec.exponentBits
  | _ => false

theorem isRegular_unpack_pack (spec : Format) (f : UnpackedFloat) (h : isNormal spec f = true) :
    isRegular (UnpackedFloat.unpack spec (UnpackedFloat.pack spec f)) = true := by
  cases f with
  | finite s m e hm =>
    simp only [isNormal, Bool.and_eq_true, decide_eq_true_eq] at h
    obtain ⟨⟨hlog, hlow⟩, hhigh⟩ := h
    have hpack : UnpackedFloat.pack spec (.finite s m e hm) = packComponents spec s
        (BitVec.ofNat _ (e + spec.exponentBias + spec.mantissaBitsWithoutImplicit).toNat)
        (BitVec.ofNat _ m) := by
      simp only [UnpackedFloat.pack]
      rw [if_neg (Nat.not_le.mpr hhigh), if_pos hlog]
    have hfield : BitVec.ofNat spec.exponentBits
        (e + spec.exponentBias + spec.mantissaBitsWithoutImplicit).toNat ≠ 0#_ := by
      intro hzero
      have htoNat := congrArg BitVec.toNat hzero
      rw [BitVec.toNat_ofNat, Nat.mod_eq_of_lt (by omega), BitVec.toNat_ofNat,
        Nat.zero_mod] at htoNat
      omega
    simp only [hpack, UnpackedFloat.unpack, unpackExponent_packComponents,
      if_neg (ofNat_ne_ones spec _ hhigh), if_neg hfield]
    rfl
  | _ => cases h

theorem roundedMantissa_le (em : ExtendedMantissa) : em.roundedMantissa ≤ em.mantissa + 1 := by
  obtain ⟨m, r, s⟩ := em
  cases r <;> cases s
  · exact Nat.le_succ m
  · exact Nat.le_succ m
  · exact Nat.add_le_add_left (Nat.le_of_lt_succ (Nat.mod_lt m (by decide))) m
  · exact Nat.le_refl (m + 1)

theorem log2_le_of_le_succ (m n : Nat) (h : n ≤ m + 1) : n.log2 ≤ m.log2 + 1 := by
  by_cases hn : n = 0
  · subst hn
    simp
  · have hm : m < 2 ^ (m.log2 + 1) := Nat.lt_log2_self
    have hlt : n < 2 ^ (m.log2 + 2) := by
      rw [Nat.pow_succ]
      omega
    exact Nat.le_of_lt_succ ((Nat.log2_lt hn).mpr hlt)

theorem mantissa_ofMantissaAndAccuracy (m : Nat) (accuracy : Accuracy) :
    (ExtendedMantissa.ofMantissaAndAccuracy m accuracy).mantissa = m := by
  rw [ExtendedMantissa.ofMantissaAndAccuracy.eq_def]
  split <;> rfl

theorem shiftToTargetExponent_eq (spec : Format) (m : Nat) (e : Int) (accuracy : Accuracy) :
    ∃ shift : Nat, (shiftToTargetExponent spec m e accuracy).1.mantissa = m / 2 ^ shift ∧
      (shiftToTargetExponent spec m e accuracy).2 = e + shift ∧
      e + shift = max e (spec.targetExponent (totalExponent m e)) := by
  refine ⟨(spec.targetExponent (totalExponent m e) - e).toNat, ?_, rfl, by omega⟩
  simp only [shiftToTargetExponent, shiftToExponent, mantissa_shiftRight,
    mantissa_ofMantissaAndAccuracy]

theorem atMost_roundWithAccuracy (spec : Format) (s : Sign) (m : Nat) (e : Int)
    (accuracy : Accuracy) (k : Int) (he : e ≤ k) (hmin : spec.minExponent ≤ k)
    (htotal : totalExponent m e - spec.mantissaBits + 1 ≤ k) :
    AtMost k (roundWithAccuracy spec s m e accuracy) := by
  obtain ⟨shift, hcut, hexp, hshift⟩ := shiftToTargetExponent_eq spec m e accuracy
  simp only [roundWithAccuracy]
  generalize shiftToTargetExponent spec m e accuracy = first at hcut hexp ⊢
  obtain ⟨shift', _, hexp', hshift'⟩ :=
    shiftToTargetExponent_eq spec first.1.roundedMantissa first.2 .exact
  generalize shiftToTargetExponent spec first.1.roundedMantissa first.2 .exact = second
    at hexp' ⊢
  -- rounding up adds at most one bit, which moves the last place by at most one
  have hround := log2_le_of_le_succ _ _ (roundedMantissa_le first.1)
  rw [hcut, log2_div_pow] at hround
  have hbits : 2 ≤ spec.mantissaBits := Nat.add_le_add_left spec.hm 1
  split
  · exact .zero s
  · refine .finite _ _ _ _ ?_
    simp only [Format.targetExponent, totalExponent] at *
    omega

theorem ne_zero_of_log2_eq (m k : Nat) (h : m.log2 = k + 1) : m ≠ 0 := by
  rintro rfl
  simp at h

theorem shiftToTargetExponent_normal (m : Nat) (e : Int) (accuracy : Accuracy)
    (hm : 52 ≤ m.log2) (hlow : -970 ≤ m.log2 + e) :
    (shiftToTargetExponent .binary64 m e accuracy).1.mantissa.log2 = 52 ∧
      (shiftToTargetExponent .binary64 m e accuracy).2 = m.log2 + e - 52 := by
  have hmin : Format.binary64.minExponent = -1074 := rfl
  have hbits : Format.binary64.mantissaBits = 53 := rfl
  obtain ⟨shift, hcut, hexp, hshift⟩ := shiftToTargetExponent_eq .binary64 m e accuracy
  rw [hcut, log2_div_pow, hexp]
  simp only [Format.targetExponent, totalExponent] at hshift
  omega

theorem isNormal_roundWithAccuracy (s : Sign) (m : Nat) (e : Int) (accuracy : Accuracy)
    (hm : 52 ≤ m.log2) (hlow : -970 ≤ m.log2 + e) (hhigh : m.log2 + e ≤ 1022) :
    isNormal .binary64 (roundWithAccuracy .binary64 s m e accuracy) = true := by
  obtain ⟨hcut, hexp⟩ := shiftToTargetExponent_normal m e accuracy hm hlow
  simp only [roundWithAccuracy]
  generalize shiftToTargetExponent .binary64 m e accuracy = first at hcut hexp ⊢
  have hle := log2_le_of_le_succ _ _ (roundedMantissa_le first.1)
  have hge : 52 ≤ first.1.roundedMantissa.log2 := by
    have hround := le_roundedMantissa first.1
    have hne := ne_zero_of_log2_eq _ 51 hcut
    rw [Nat.le_log2 (by omega)]
    exact ((Nat.le_log2 hne).mp hcut.ge).trans hround
  obtain ⟨hcut', hexp'⟩ :=
    shiftToTargetExponent_normal first.1.roundedMantissa first.2 .exact hge (by omega)
  rw [dif_neg (ne_zero_of_log2_eq _ 51 hcut')]
  simp only [isNormal, hcut', hexp', Format.exponentBias, Bool.and_eq_true, decide_eq_true_eq]
  exact ⟨⟨rfl, by omega⟩, by omega⟩

theorem AtMost.mul (f g : UnpackedFloat) (k l : Int) (hf : AtMost k f) (hg : AtMost l g)
    (hfm : ∀ s m e h, f = .finite s m e h → m.log2 ≤ 52)
    (hgm : ∀ s m e h, g = .finite s m e h → m.log2 ≤ 52) (hlow : -1074 ≤ k + l + 54) :
    AtMost (k + l + 54) (UnpackedFloat.mul .binary64 f g) := by
  cases hf with
  | zero s => cases hg <;> exact .zero _
  | finite s m e h he =>
    cases hg with
    | zero s => exact .zero _
    | finite s' m' e' h' he' =>
      have hm := (Nat.log2_lt h.ne').mp (Nat.lt_succ_of_le (hfm s m e h rfl))
      have hm' := (Nat.log2_lt h'.ne').mp (Nat.lt_succ_of_le (hgm s' m' e' h' rfl))
      have hlog : (m * m').log2 < 106 := by
        rw [Nat.log2_lt (Nat.mul_pos h h').ne']
        calc m * m' < 2 ^ 53 * 2 ^ 53 := Nat.mul_lt_mul'' hm hm'
          _ = 2 ^ 106 := by norm_num
      have hmin : Format.binary64.minExponent = -1074 := rfl
      have hbits : Format.binary64.mantissaBits = 53 := rfl
      refine atMost_roundWithAccuracy _ _ _ _ _ _ (by omega) (by omega) ?_
      simp only [totalExponent]
      omega

theorem atMost_mul (x y : Float) (k l : Int) (hx : AtMost k x.toModel.unpack)
    (hy : AtMost l y.toModel.unpack) (hlow : -1074 ≤ k + l + 54) (hhigh : k + l + 54 ≤ 971) :
    AtMost (k + l + 54) (x * y).toModel.unpack := by
  have hprod := hx.mul _ _ k l hy (log2_of_unpack .binary64 _) (log2_of_unpack .binary64 _) hlow
  exact hprod.unpack_pack .binary64 _ _ (by simp [Format.exponentBias]; omega)
    (by simp [Format.exponentBias]; omega)

theorem atMost_toFloat (n : UInt64) : AtMost 12 n.toFloat.toModel.unpack := by
  have hround : AtMost 12 (UnpackedFloat.ofUInt64 .binary64 n) := by
    simp only [UnpackedFloat.ofUInt64, UnpackedFloat.ofNat, UnpackedFloat.ofInt,
      UnpackedFloat.normalize]
    split
    · next hneg =>
      rw [compare_lt_iff_lt] at hneg
      omega
    · exact .zero _
    · next hpos =>
      rw [compare_gt_iff_gt] at hpos
      have hn : n.toNat ≠ 0 := by omega
      have hlog : n.toNat.log2 < 64 := (Nat.log2_lt hn).mpr n.toNat_lt
      have hmin : Format.binary64.minExponent = -1074 := rfl
      have hbits : Format.binary64.mantissaBits = 53 := rfl
      simp only [UnpackedFloat.round, decreaseExponent, Int.toNat_natCast]
      refine atMost_roundWithAccuracy _ _ _ _ _ _ (by omega) (by omega) ?_
      simp only [totalExponent, log2_shiftLeft _ _ hn]
      omega
  exact hround.unpack_pack .binary64 _ _ (by decide) (by decide)

end CodeAtlas.Number
