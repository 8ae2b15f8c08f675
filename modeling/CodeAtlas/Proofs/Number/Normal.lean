import Mathlib
import CodeAtlas.Proofs.Number.Magnitude

namespace CodeAtlas.Number

open Float.Model (Format UnpackedFloat totalExponent)
open Float.Model.UnpackedFloat

/-- A number of single precision with all bits of its mantissa in use, whose last place lies between
`2 ^ low` and `2 ^ high`. -/
inductive Sized (s : Sign) (low high : Int) : UnpackedFloat → Prop where
  | finite (m : Nat) (e : Int) (h : 0 < m) (hm : m.log2 = 23) (hlow : low ≤ e) (hhigh : e ≤ high) :
      Sized s low high (.finite s m e h)

theorem minExponent_eq : Format.binary32.minExponent = -149 := rfl

theorem mantissaBits_eq : Format.binary32.mantissaBits = 24 := rfl

variable {s s' : Sign} {low high low' high' : Int} {f g : UnpackedFloat}

theorem Sized.mono (h : Sized s low high f) (hlow : low' ≤ low) (hhigh : high ≤ high') :
    Sized s low' high' f := by
  cases h with
  | finite m e hpos hm hl hh => exact .finite m e hpos hm (hlow.trans hl) (hh.trans hhigh)

theorem shiftToTargetExponent_full (m : Nat) (e : Int) (accuracy : Accuracy) (hm : 23 ≤ m.log2)
    (hlow : -149 ≤ m.log2 + e - 23) :
    (shiftToTargetExponent .binary32 m e accuracy).1.mantissa.log2 = 23 ∧
      (shiftToTargetExponent .binary32 m e accuracy).2 = m.log2 + e - 23 := by
  obtain ⟨shift, hcut, hexp, hshift⟩ := shiftToTargetExponent_eq .binary32 m e accuracy
  rw [hcut, log2_div_pow, hexp]
  simp only [Format.targetExponent, totalExponent, minExponent_eq, mantissaBits_eq] at hshift
  omega

theorem sized_roundWithAccuracy (s : Sign) (m : Nat) (e : Int) (accuracy : Accuracy)
    (hm : 23 ≤ m.log2) (hlow : -149 ≤ m.log2 + e - 23) :
    Sized s (m.log2 + e - 23) (m.log2 + e - 22) (roundWithAccuracy .binary32 s m e accuracy) := by
  obtain ⟨hcut, hexp⟩ := shiftToTargetExponent_full m e accuracy hm hlow
  simp only [roundWithAccuracy]
  generalize shiftToTargetExponent .binary32 m e accuracy = first at hcut hexp ⊢
  -- rounding up can only add a bit, which the second shift takes away again
  have hle := log2_le_of_le_succ _ _ (roundedMantissa_le first.1)
  have hge : 23 ≤ first.1.roundedMantissa.log2 := by
    have hround := le_roundedMantissa first.1
    have hne := ne_zero_of_log2 _ hcut
    rw [Nat.le_log2 (by omega)]
    exact ((Nat.le_log2 hne).mp hcut.ge).trans hround
  obtain ⟨hcut', hexp'⟩ :=
    shiftToTargetExponent_full first.1.roundedMantissa first.2 .exact hge (by omega)
  rw [dif_neg (ne_zero_of_log2 _ hcut')]
  exact .finite _ _ _ hcut' (by omega) (by omega)

theorem sized_round (s : Sign) (m : Nat) (e : Int) (hm : m ≠ 0) (hlow : -149 ≤ m.log2 + e - 23) :
    Sized s (m.log2 + e - 23) (m.log2 + e - 22) (UnpackedFloat.round .binary32 s m e) := by
  simp only [UnpackedFloat.round, decreaseExponent]
  have htarget : Format.binary32.targetExponent (totalExponent m e) = m.log2 + e - 23 := by
    simp only [Format.targetExponent, totalExponent, minExponent_eq, mantissaBits_eq]
    omega
  rw [htarget]
  have hshift := log2_shiftLeft m (e - (m.log2 + e - 23)).toNat hm
  refine (sized_roundWithAccuracy s _ _ .exact ?_ ?_).mono ?_ ?_ <;> omega

theorem sized_normalize (m e : Int) (t : Sign) (hm : m ≠ 0)
    (hlow : -149 ≤ m.natAbs.log2 + e - 23) :
    ∃ s, Sized s (m.natAbs.log2 + e - 23) (m.natAbs.log2 + e - 22)
      (UnpackedFloat.normalize .binary32 m e t) := by
  rw [UnpackedFloat.normalize]
  rcases lt_trichotomy m 0 with hneg | hzero | hpos
  · have hc : compare m 0 = .lt := compare_lt_iff_lt.mpr hneg
    have habs : (-m).toNat = m.natAbs := by omega
    simp only [hc, habs]
    exact ⟨.negative, sized_round .negative m.natAbs e (Int.natAbs_ne_zero.mpr hm) hlow⟩
  · exact absurd hzero hm
  · have hc : compare m 0 = .gt := compare_gt_iff_gt.mpr hpos
    have habs : m.toNat = m.natAbs := by omega
    simp only [hc, habs]
    exact ⟨.positive, sized_round .positive m.natAbs e (Int.natAbs_ne_zero.mpr hm) hlow⟩

theorem shiftToTargetExponent_self (m : Nat) (e : Int) (hm : m.log2 = 23) (he : -149 ≤ e) :
    shiftToTargetExponent .binary32 m e .exact = (⟨m, false, false⟩, e) := by
  have htarget : (Format.binary32.targetExponent (totalExponent m e) - e).toNat = 0 := by
    simp only [Format.targetExponent, totalExponent, minExponent_eq, mantissaBits_eq]
    omega
  simp only [shiftToTargetExponent, shiftToExponent, htarget]
  exact Prod.ext rfl (Int.add_zero e)

theorem roundWithAccuracy_of_shift (s : Sign) (m m' : Nat) (e e' : Int) (h : 0 < m)
    (hm : m.log2 = 23) (he : -149 ≤ e)
    (hshift : shiftToTargetExponent .binary32 m' e' .exact = (⟨m, false, false⟩, e)) :
    roundWithAccuracy .binary32 s m' e' .exact = .finite s m e h := by
  have hround : (⟨m, false, false⟩ : ExtendedMantissa).roundedMantissa = m := rfl
  simp only [roundWithAccuracy, hshift, hround, shiftToTargetExponent_self m e hm he]
  exact dif_neg h.ne'

theorem roundWithAccuracy_full (s : Sign) (m : Nat) (e : Int) (h : 0 < m) (hm : m.log2 = 23)
    (he : -149 ≤ e) : roundWithAccuracy .binary32 s m e .exact = .finite s m e h :=
  roundWithAccuracy_of_shift s m m e e h hm he (shiftToTargetExponent_self m e hm he)

/-- A number with a full mantissa is packed without loss. -/
theorem unpack_pack_full (s : Sign) (m : Nat) (e : Int) (h : 0 < m) (hm : m.log2 = 23)
    (hlow : -149 ≤ e) (hhigh : e ≤ 104) :
    UnpackedFloat.unpack .binary32 (UnpackedFloat.pack .binary32 (.finite s m e h)) =
      .finite s m e h := by
  have hbias : Format.binary32.exponentBias = 127 := rfl
  have hfield : (BitVec.ofNat 8 (e + 127 + 23).toNat).toNat = (e + 150).toNat := by
    rw [BitVec.toNat_ofNat]
    omega
  have hones : BitVec.ofNat 8 (e + 127 + 23).toNat ≠ -1#8 := by
    intro heq
    rw [heq] at hfield
    have : (-1#8).toNat = 255 := rfl
    omega
  have hzero : BitVec.ofNat 8 (e + 127 + 23).toNat ≠ 0#8 := by
    intro heq
    rw [heq] at hfield
    have : (0#8).toNat = 0 := rfl
    omega
  have hmantissa : (1#1 ++ BitVec.ofNat 23 m).toNat = m := by
    obtain ⟨hge, hlt⟩ := (Nat.log2_eq_iff h.ne').mp hm
    rw [toNat_one_append, BitVec.toNat_ofNat]
    omega
  have hpack : UnpackedFloat.pack .binary32 (.finite s m e h) =
      packComponents .binary32 s (BitVec.ofNat 8 (e + 127 + 23).toNat) (BitVec.ofNat 23 m) := by
    simp only [UnpackedFloat.pack, hbias, hm]
    rw [if_neg (by omega), mantissaBits_eq, if_pos rfl]
    rfl
  simp only [hpack, UnpackedFloat.unpack, unpackExponent_packComponents,
    unpackMantissa_packComponents, unpackSign_packComponents, if_neg hones, if_neg hzero, hfield,
    hmantissa, hbias, Sign.ofBitVec_toBitVec]
  congr 1
  omega

theorem Sized.unpack_pack (h : Sized s low high f) (hlow : -149 ≤ low) (hhigh : high ≤ 104) :
    UnpackedFloat.unpack .binary32 (UnpackedFloat.pack .binary32 f) = f := by
  cases h with
  | finite m e hpos hm hl hh =>
    exact unpack_pack_full s m e hpos hm (hlow.trans hl) (hh.trans hhigh)

theorem Sized.mul (hf : Sized s low high f) (hg : Sized s' low' high' g)
    (hlow : -172 ≤ low + low') :
    Sized (s * s') (low + low' + 23) (high + high' + 25) (UnpackedFloat.mul .binary32 f g) := by
  cases hf with
  | finite m e h hm hl hh =>
    cases hg with
    | finite m' e' h' hm' hl' hh' =>
      obtain ⟨hge, hlt⟩ := (Nat.log2_eq_iff h.ne').mp hm
      obtain ⟨hge', hlt'⟩ := (Nat.log2_eq_iff h'.ne').mp hm'
      have hne : m * m' ≠ 0 := (Nat.mul_pos h h').ne'
      have hlog : 46 ≤ (m * m').log2 := by
        rw [Nat.le_log2 hne]
        calc 2 ^ 46 = 2 ^ 23 * 2 ^ 23 := by norm_num
          _ ≤ m * m' := Nat.mul_le_mul hge hge'
      have hlog' : (m * m').log2 < 48 := by
        rw [Nat.log2_lt hne]
        calc m * m' < 2 ^ 24 * 2 ^ 24 := Nat.mul_lt_mul'' hlt hlt'
          _ = 2 ^ 48 := by norm_num
      refine (sized_roundWithAccuracy _ _ (e + e') .exact ?_ ?_).mono ?_ ?_ <;> omega

theorem log2_mono (a b : Nat) (ha : a ≠ 0) (h : a ≤ b) : a.log2 ≤ b.log2 := by
  rw [Nat.le_log2 (by omega)]
  exact ((Nat.le_log2 ha).mp le_rfl).trans h

theorem log2_add_le (a b k : Nat) (ha : a.log2 ≤ k) (hb : b.log2 ≤ k) : (a + b).log2 ≤ k + 1 := by
  have hlt : ∀ c : Nat, c.log2 ≤ k → c < 2 ^ (k + 1) := by
    intro c hc
    exact Nat.lt_log2_self.trans_le (Nat.pow_le_pow_right (by decide) (by omega))
  by_cases hne : a + b = 0
  · simp [hne]
  · have ha := hlt a ha
    have hb := hlt b hb
    rw [← Nat.lt_succ_iff, Nat.log2_lt hne, Nat.pow_succ]
    omega

theorem Sized.add (hf : Sized .positive low high f) (hg : Sized .positive low' high g)
    (hlow : -149 ≤ low) : Sized .positive low (high + 2) (UnpackedFloat.add .binary32 f g) := by
  cases hf with
  | finite m e h hm hl hh =>
    cases hg with
    | finite m' e' h' hm' hl' hh' =>
      have hlog := log2_shiftLeft m (e - min e e').toNat h.ne'
      have hlog' := log2_shiftLeft m' (e' - min e e').toNat h'.ne'
      have hpos : m <<< (e - min e e').toNat ≠ 0 := by
        rw [Nat.shiftLeft_eq]
        exact (Nat.mul_pos h (Nat.two_pow_pos _)).ne'
      simp only [UnpackedFloat.add, decreaseExponent, Sign.apply, ← Nat.cast_add]
      generalize m <<< (e - min e e').toNat = a at hlog hpos ⊢
      generalize m' <<< (e' - min e e').toNat = b at hlog' ⊢
      have hge := log2_mono a (a + b) hpos (Nat.le_add_right a b)
      have hle := log2_add_le a b (23 + (max e e' - min e e').toNat) (by omega) (by omega)
      have hc : compare ((a + b : Nat) : Int) 0 = .gt := by
        rw [compare_gt_iff_gt]
        omega
      simp only [UnpackedFloat.normalize, hc, Int.toNat_natCast]
      refine (sized_round .positive (a + b) (min e e') (by omega) ?_).mono ?_ ?_ <;> omega

theorem sub_of_le (m m' : Nat) (e e' : Int) (h : 0 < m) (h' : 0 < m') (he : e ≤ e') :
    UnpackedFloat.sub .binary32 (.finite .positive m e h) (.finite .positive m' e' h') =
      UnpackedFloat.normalize .binary32 (m - (m' <<< (e' - e).toNat : Nat)) e .positive := by
  simp only [UnpackedFloat.sub, decreaseExponent, min_eq_left he, Int.sub_self, Sign.apply]
  rfl

theorem natAbs_sub_shiftLeft (a b k : Nat) :
    ((a <<< k : Nat) - (b <<< k : Nat) : Int).natAbs = (a - b : Int).natAbs <<< k := by
  rw [Nat.shiftLeft_eq, Nat.shiftLeft_eq, Nat.shiftLeft_eq, Nat.cast_mul, Nat.cast_mul, ← sub_mul,
    Int.natAbs_mul, Int.natAbs_natCast]

theorem log2_sqrt (n : Nat) (h : 46 ≤ n.log2) (h' : n.log2 < 48) : n.sqrt.log2 = 23 := by
  have hn : n ≠ 0 := by
    rintro rfl
    simp at h
  have hge : 2 ^ 23 ≤ n.sqrt := by
    rw [Nat.le_sqrt]
    calc 2 ^ 23 * 2 ^ 23 = 2 ^ 46 := by norm_num
      _ ≤ n := (Nat.le_log2 hn).mp h
  have hlt : n.sqrt < 2 ^ 24 := by
    rw [Nat.sqrt_lt]
    calc n < 2 ^ 48 := (Nat.log2_lt hn).mp h'
      _ = 2 ^ 24 * 2 ^ 24 := by norm_num
  exact (Nat.log2_eq_iff (by omega)).mpr ⟨hge, hlt⟩

theorem Sized.sqrt (hf : Sized .positive low high f) (hlow : -149 ≤ low) (hhigh : high ≤ 104) :
    Sized .positive (-149) 104 (UnpackedFloat.sqrt .binary32 f) := by
  cases hf with
  | finite m e h hm hl hh =>
    have htarget : min (e.ediv 2) (Format.binary32.targetExponent
        ((totalExponent m e + 1).ediv 2)) = (e + 25) / 2 - 24 := by
      have hhalf : (totalExponent m e + 1).ediv 2 = (e + 25) / 2 := by
        rw [totalExponent, hm]
        congr 1
        omega
      have hediv : e.ediv 2 = e / 2 := rfl
      rw [hhalf, hediv]
      simp only [Format.targetExponent, minExponent_eq, mantissaBits_eq]
      omega
    have hlog := log2_shiftLeft m (e - 2 * ((e + 25) / 2 - 24)).toNat h.ne'
    have hroot : (m <<< (e - 2 * ((e + 25) / 2 - 24)).toNat).sqrt.log2 = 23 :=
      log2_sqrt _ (by omega) (by omega)
    simp only [UnpackedFloat.sqrt, sqrtCore, htarget]
    refine (sized_roundWithAccuracy .positive _ ((e + 25) / 2 - 24) _ ?_ ?_).mono ?_ ?_ <;>
      rw [hroot] <;> omega

theorem round_small (s : Sign) (n : Nat) (hn : n ≠ 0) (hlt : n < 2 ^ 24) :
    UnpackedFloat.round .binary32 s n 0 = .finite s (n <<< (23 - n.log2)) (n.log2 - 23)
      (Nat.shiftLeft_pos_iff.mpr (Nat.pos_of_ne_zero hn)) := by
  have hlog : n.log2 < 24 := (Nat.log2_lt hn).mpr hlt
  have hshift := log2_shiftLeft n (23 - n.log2) hn
  have htarget : Format.binary32.targetExponent (totalExponent n 0) = n.log2 - 23 := by
    simp only [Format.targetExponent, totalExponent, minExponent_eq, mantissaBits_eq]
    omega
  have hamount : (0 - ((n.log2 : Int) - 23)).toNat = 23 - n.log2 := by omega
  have hexponent : (0 : Int) - (23 - n.log2 : Nat) = n.log2 - 23 := by omega
  simp only [UnpackedFloat.round, decreaseExponent, htarget, hamount, hexponent]
  exact roundWithAccuracy_full s _ _ _ (by omega) (by omega)

theorem unpack_toFloat32 (n : UInt64) (hn : n.toNat ≠ 0) (hlt : n.toNat < 2 ^ 24) :
    n.toFloat32.toModel.unpack =
      .finite .positive (n.toNat <<< (23 - n.toNat.log2)) (n.toNat.log2 - 23)
        (Nat.shiftLeft_pos_iff.mpr (Nat.pos_of_ne_zero hn)) := by
  have hlog : n.toNat.log2 < 24 := (Nat.log2_lt hn).mpr hlt
  have hshift := log2_shiftLeft n.toNat (23 - n.toNat.log2) hn
  have hc : compare (n.toNat : Int) 0 = .gt := by
    rw [compare_gt_iff_gt]
    omega
  have hof : UnpackedFloat.ofUInt64 .binary32 n =
      .finite .positive (n.toNat <<< (23 - n.toNat.log2)) (n.toNat.log2 - 23)
        (Nat.shiftLeft_pos_iff.mpr (Nat.pos_of_ne_zero hn)) := by
    simp only [UnpackedFloat.ofUInt64, UnpackedFloat.ofNat, UnpackedFloat.ofInt,
      UnpackedFloat.normalize, hc, Int.toNat_natCast]
    exact round_small .positive n.toNat hn hlt
  show UnpackedFloat.unpack .binary32 (UnpackedFloat.pack .binary32
    (UnpackedFloat.ofUInt64 .binary32 n)) = _
  rw [hof]
  exact unpack_pack_full _ _ _ _ (by omega) (by omega) (by omega)

theorem roundWithAccuracy_double (s : Sign) (m : Nat) (e : Int) (h : 0 < m) (hm : m.log2 = 23)
    (he : -149 ≤ e) : roundWithAccuracy .binary32 s (m * 2) (e - 1) .exact = .finite s m e h := by
  apply roundWithAccuracy_of_shift s m (m * 2) e (e - 1) h hm he
  have hlog : (m * 2).log2 = 24 := by
    rw [Nat.mul_comm, Nat.log2_two_mul h.ne', hm]
  have htarget : (Format.binary32.targetExponent (totalExponent (m * 2) (e - 1)) -
      (e - 1)).toNat = 1 := by
    simp only [Format.targetExponent, totalExponent, minExponent_eq, mantissaBits_eq]
    omega
  have hhalf : (⟨m * 2, false, false⟩ : ExtendedMantissa).shiftRightOne = ⟨m, false, false⟩ := by
    simp [ExtendedMantissa.shiftRightOne]
  simp only [shiftToTargetExponent, shiftToExponent, htarget]
  exact Prod.ext hhalf (Int.sub_add_cancel e 1)

/-- Division by a power of two moves the last place and leaves the mantissa as it is. -/
theorem div_power (s : Sign) (m : Nat) (e k : Int) (h : 0 < m) (hm : m.log2 = 23)
    (he : -149 ≤ e - k - 24) :
    UnpackedFloat.div .binary32 (.finite s m e h) (.finite .positive (2 ^ 23) k (by decide)) =
      .finite s m (e - k - 23) h := by
  have hsign : s / Sign.positive = s := by cases s <;> rfl
  have htarget : min (e - k) (Format.binary32.targetExponent
      (totalExponent m e - totalExponent (2 ^ 23) k)) = e - k - 24 := by
    have hlog : (2 ^ 23).log2 = 23 := by decide
    simp only [Format.targetExponent, totalExponent, minExponent_eq, mantissaBits_eq, hlog, hm]
    omega
  have hamount : (e - k - (e - k - 24)).toNat = 24 := by omega
  have hquotient : m <<< 24 / 2 ^ 23 = m * 2 := by
    rw [Nat.shiftLeft_eq]
    omega
  have hexact : accuracyOfFraction (m <<< 24 % 2 ^ 23) (2 ^ 23) = .exact := by
    rw [accuracyOfFraction, if_pos]
    rw [Nat.shiftLeft_eq]
    omega
  have hexponent : e - k - 24 = e - k - 23 - 1 := by omega
  simp only [UnpackedFloat.div, divCore, htarget, hamount, hquotient, hexact, hsign]
  rw [hexponent]
  exact roundWithAccuracy_double s m (e - k - 23) h hm (by omega)

end CodeAtlas.Number
