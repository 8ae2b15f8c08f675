import Mathlib
import CodeAtlas.Proofs.Json.Number
import CodeAtlas.Proofs.Number.Magnitude

namespace CodeAtlas

open Float.Model (Format UnpackedFloat)

namespace Number

theorem isRegular_exactlyRepresentable (k : Nat)
    (h : k < Float32.exactlyRepresentablePowersOfTen.size) :
    isRegular Float32.exactlyRepresentablePowersOfTen[k].toModel.unpack = true := by
  have hall : ∀ x ∈ Float32.exactlyRepresentablePowersOfTen.toList,
      isRegular x.toModel.unpack = true := by
    decide +kernel
  exact hall _ (by simp)

theorem isNaN_toFloat32 (n : UInt64) : n.toFloat32.isNaN = false :=
  isNaN_unpack_pack .binary32 _ (isNaN_ofNat .binary32 n.toNat)

theorem isNaN_float32Neg (x : Float32) (h : x.isNaN = false) : (-x).isNaN = false :=
  isNaN_unpack_pack .binary32 _ ((isNaN_neg x.toModel.unpack).trans h)

theorem isNaN_float32OfScientific (m : Nat) (s : Bool) (e : Nat) :
    (Float32.ofScientific m s e).isNaN = false := by
  rw [Float32.ofScientific]
  split
  · cases s with
    | true =>
      exact isNaN_unpack_pack .binary32 _ (isNaN_div .binary32 _ _ (isNaN_toFloat32 _)
        (isRegular_exactlyRepresentable e _))
    | false =>
      exact isNaN_unpack_pack .binary32 _ (isNaN_mul .binary32 _ _ (isNaN_toFloat32 _)
        (isRegular_exactlyRepresentable e _))
  · exact isNaN_unpack_pack .binary32 _ (isNaN_ofScientific .binary32 _ _)

theorem isNaN_ite (p : Prop) [Decidable p] (x y : Float32) (hx : p → x.isNaN = false)
    (hy : ¬ p → y.isNaN = false) : (if p then x else y).isNaN = false := by
  split
  · next hp => exact hx hp
  · next hp => exact hy hp

theorem isNaN_narrow (x : Float) (h : x.isNaN = false) : (narrow x).isNaN = false := by
  have hfields := isNaN_unpack .binary64 x.toModel.toBits.toBitVec
  have hmagnitude : ∀ y : Float32, y.isNaN = false →
      (if x.toBits.toNat ≥ Nat.pow 2 63 then -y else y).isNaN = false := fun y hy =>
    isNaN_ite _ _ _ (fun _ => isNaN_float32Neg y hy) fun _ => hy
  rw [narrow]
  refine hmagnitude _ (isNaN_ite _ _ _ ?_ ?_)
  · intro hscale
    refine isNaN_ite _ _ _ (fun _ => by decide +kernel) ?_
    intro hfraction
    exact absurd (hfields.mpr ⟨hscale, hfraction⟩) (Bool.eq_false_iff.mp h)
  · intro _
    exact isNaN_ite _ _ _ (fun _ => isNaN_float32OfScientific ..)
      fun _ => isNaN_float32OfScientific ..

end Number

namespace Json

open Number

namespace Numeral

theorem isRegular_powerOfTen_of_le (k : Nat) (h : k ≤ 22) :
    isRegular (powerOfTen k).toModel.unpack = true := by
  have hall : ∀ k ≤ 22, isRegular (powerOfTen k).toModel.unpack = true := by
    decide +kernel
  exact hall k h

theorem log2_ten_pow (k : Nat) (h : k ≤ 307) : (10 ^ k).log2 ≤ 1022 := by
  have hall : ∀ k ≤ 307, (10 ^ k).log2 ≤ 1022 := by
    decide +kernel
  exact hall k h

theorem isNormal_ofScientific (k : Nat) (hk : k ≤ 308) :
    isNormal .binary64 (UnpackedFloat.ofScientific .binary64 1 k) = true := by
  -- the largest power of ten is so near the limit that it is computed
  obtain rfl | hk : k = 308 ∨ k ≤ 307 := by omega
  · decide +kernel
  have hlog := log2_ten_pow k hk
  have hmul : (1 <<< 53 * 10 ^ k).log2 = (10 ^ k).log2 + 53 := by
    rw [Nat.one_shiftLeft, Nat.mul_comm, ← Nat.shiftLeft_eq, log2_shiftLeft _ _ (by positivity)]
  have hround : isNormal .binary64 (UnpackedFloat.roundWithAccuracy .binary64 .positive
      (1 <<< 53 * 10 ^ k) (-53 + 0) .exact) = true :=
    isNormal_roundWithAccuracy _ _ _ _ (by omega) (by omega) (by omega)
  have hsafe : ¬ ((k : Int) > 2 ^ Format.binary64.exponentBits) := by
    change ¬ ((k : Int) > 2048)
    omega
  rw [UnpackedFloat.ofScientific, dif_neg (by decide), if_neg hsafe,
    if_neg (by have := Nat.two_pow_pos 11; omega), if_pos (by omega)]
  exact hround

theorem isRegular_powerOfTen (k : Nat) (hk : k ≤ 308) :
    isRegular (powerOfTen k).toModel.unpack = true := by
  by_cases h : k ≤ 22
  · exact isRegular_powerOfTen_of_le k h
  · rw [powerOfTen, Float.ofScientific, dif_neg (by omega)]
    exact isRegular_unpack_pack .binary64 _ (isNormal_ofScientific k hk)

theorem atMost_powerOfTen (k : Nat) (hk : k ≤ 60) : AtMost 200 (powerOfTen k).toModel.unpack := by
  have hall : ∀ k ≤ 60, AtMost 200 (powerOfTen k).toModel.unpack := by
    decide +kernel
  exact hall k hk

theorem exists_scale? (significand : Nat) (exponent : Int) (h : exponent ≤ 60) :
    ∃ y, scale? significand exponent = some y := by
  rw [scale?]
  dsimp only
  split
  · exact ⟨_, rfl⟩
  have hprod := atMost_mul _ _ 12 200 (atMost_toFloat significand.toUInt64)
    (atMost_powerOfTen exponent.toNat (by omega)) (by decide) (by decide)
  have hinf : (significand.toUInt64.toFloat * powerOfTen exponent.toNat).isInf = false :=
    hprod.isInf_eq
  rw [if_pos (by omega), if_neg (by rw [hinf]; exact Bool.false_ne_true)]
  exact ⟨_, rfl⟩

theorem dropped_le (run : List Char) : (takeWhole run).2 ≤ run.length := by
  induction run using List.reverseRecOn with
  | nil => exact le_rfl
  | append_singleton run c ih =>
    rw [takeWhole] at ih ⊢
    rw [List.foldl_append, List.length_append]
    dsimp only [List.foldl_cons, List.foldl_nil]
    split
    · exact Nat.zero_le _
    · exact Nat.add_le_add_right ih 1

theorem exists_quantity? (n : Numeral) (h : n.whole.length + n.exponent.getD 0 ≤ 60) :
    ∃ q, n.quantity? = some q := by
  have hdropped := dropped_le n.whole
  rw [quantity?]
  generalize takeWhole n.whole = t at hdropped
  obtain ⟨significand, dropped⟩ := t
  dsimp only at hdropped ⊢
  split
  · split
    · exact ⟨_, rfl⟩
    split
    · exact ⟨_, rfl⟩
    · exact ⟨_, rfl⟩
  · simp only [← Option.isSome_iff_exists, Option.isSome_map]
    exact Option.isSome_iff_exists.mpr (exists_scale? _ _ (by omega))

theorem isNaN_toFloat (n : UInt64) : n.toFloat.isNaN = false :=
  isNaN_unpack_pack .binary64 _ (isNaN_ofNat .binary64 n.toNat)

theorem isNaN_floatNeg (x : Float) (h : x.isNaN = false) : (-x).isNaN = false :=
  isNaN_unpack_pack .binary64 _ ((isNaN_neg x.toModel.unpack).trans h)

theorem isNaN_shrink (x : Float) (k : Nat) (hx : x.isNaN = false) :
    (shrink x k).isNaN = false := by
  have hdiv : ∀ (y : Float) (k : Nat), k ≤ 308 → y.isNaN = false →
      (y / powerOfTen k).isNaN = false := fun y k hk hy =>
    isNaN_unpack_pack .binary64 _ (isNaN_div .binary64 _ _ hy (isRegular_powerOfTen k hk))
  fun_induction shrink x k with
  | case1 x k hk => exact hdiv x k hk hx
  | case2 x k _ _ => exact hx
  | case3 x k _ _ ih => exact ih (hdiv x 308 le_rfl hx)

theorem isNaN_scale? (significand : Nat) (exponent : Int) (y : Float)
    (h : scale? significand exponent = some y) : y.isNaN = false := by
  have hx := isNaN_toFloat significand.toUInt64
  rw [scale?] at h
  dsimp only at h
  split at h
  · obtain rfl := Option.some.inj h
    exact isNaN_shrink _ _ hx
  split at h
  · split at h
    · cases h
    · obtain rfl := Option.some.inj h
      exact isNaN_unpack_pack .binary64 _
        (isNaN_mul .binary64 _ _ hx (isRegular_powerOfTen _ (by omega)))
  split at h
  · obtain rfl := Option.some.inj h
    exact hx
  · cases h

end Numeral

def Quantity.IsNumber : Quantity → Prop
  | .double x => x.isNaN = false
  | _ => True

theorem Quantity.isNaN_toSingle (q : Quantity) (h : q.IsNumber) : q.toSingle.isNaN = false := by
  cases q with
  | whole n => exact isNaN_toFloat32 _
  | minus n => exact isNaN_float32Neg _ (isNaN_toFloat32 _)
  | double x => exact isNaN_narrow x h

theorem Numeral.isNumber_quantity? (n : Numeral) (q : Quantity) (h : n.quantity? = some q) :
    q.IsNumber := by
  rw [quantity?] at h
  dsimp only at h
  split at h
  · split at h
    · obtain rfl := Option.some.inj h
      trivial
    split at h
    · obtain rfl := Option.some.inj h
      trivial
    · obtain rfl := Option.some.inj h
      exact isNaN_floatNeg _ (isNaN_toFloat _)
  · obtain ⟨x, hx, rfl⟩ := Option.map_eq_some_iff.mp h
    have hnumber := isNaN_scale? _ _ x hx
    cases n.negative with
    | true => exact isNaN_floatNeg x hnumber
    | false => exact hnumber

theorem isNumber_of_quantity (cs : List Char) (q : Quantity) (rest : List Char)
    (h : quantity cs = .ok (q, rest)) : q.IsNumber := by
  obtain ⟨⟨n, mid⟩, _, hq⟩ := (bind_eq_ok _ _ _).mp h
  dsimp only at hq
  split at hq
  · next hvalue =>
    cases hq
    exact n.isNumber_quantity? q hvalue
  · cases hq

theorem isNumber_of_number (cs : List Char) (q : Quantity) (rest : List Char)
    (h : number cs = .ok (q, rest)) : q.IsNumber := by
  rw [number] at h
  split at h
  · split at h
    · exact isNumber_of_quantity _ q rest h
    · exact absurd h (refuse_ne_ok _ _)
  · exact absurd h (refuse_ne_ok _ _)

theorem isNaN_of_singleNumber (cs : List Char) (x : Float32) (rest : List Char)
    (h : singleNumber cs = .ok (x, rest)) : x.isNaN = false := by
  obtain ⟨⟨q, mid⟩, hq, hx⟩ := (bind_eq_ok _ _ _).mp h
  cases hx
  exact q.isNaN_toSingle (isNumber_of_number cs q _ hq)

end Json

end CodeAtlas
