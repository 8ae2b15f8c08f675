import Mathlib
import CodeAtlas.Proofs.Number.Normal

namespace CodeAtlas.Number

open Float.Model (UnpackedFloat)
open Float.Model.UnpackedFloat

variable {s s' : Sign} {low high low' high' : Int} {f : UnpackedFloat} {p q : Prop} {x y : Float32}

theorem unpack_mul : (x * y).toModel.unpack = UnpackedFloat.unpack .binary32
    (UnpackedFloat.pack .binary32 (UnpackedFloat.mul .binary32 x.toModel.unpack
      y.toModel.unpack)) :=
  rfl

theorem unpack_div : (x / y).toModel.unpack = UnpackedFloat.unpack .binary32
    (UnpackedFloat.pack .binary32 (UnpackedFloat.div .binary32 x.toModel.unpack
      y.toModel.unpack)) :=
  rfl

theorem unpack_add : (x + y).toModel.unpack = UnpackedFloat.unpack .binary32
    (UnpackedFloat.pack .binary32 (UnpackedFloat.add .binary32 x.toModel.unpack
      y.toModel.unpack)) :=
  rfl

theorem unpack_sub : (x - y).toModel.unpack = UnpackedFloat.unpack .binary32
    (UnpackedFloat.pack .binary32 (UnpackedFloat.sub .binary32 x.toModel.unpack
      y.toModel.unpack)) :=
  rfl

theorem unpack_sqrt : x.sqrt.toModel.unpack = UnpackedFloat.unpack .binary32
    (UnpackedFloat.pack .binary32 (UnpackedFloat.sqrt .binary32 x.toModel.unpack)) :=
  rfl

theorem beq_zero (x : Float32) :
    (x == 0) = UnpackedFloat.beq x.toModel.unpack (.zero .positive) := by
  rw [← unpack_zero]
  rfl

theorem unpack_of_beq_zero (x : Float32) (h : (x == 0) = true) :
    ∃ t, x.toModel.unpack = .zero t := by
  rw [beq_zero] at h
  generalize x.toModel.unpack = f at h ⊢
  cases f with
  | zero t => exact ⟨t, rfl⟩
  | notANumber => cases h
  | infinity t => cases t <;> cases h
  | finite t => cases t <;> cases h

/-- A number that is zero exactly when `p` holds, and has a full mantissa otherwise. -/
inductive ZeroIff (p : Prop) (s : Sign) (low high : Int) (x : Float32) : Prop where
  | zero (hp : p) (t : Sign) (h : x.toModel.unpack = .zero t)
  | sized (hp : ¬ p) (h : Sized s low high x.toModel.unpack)

theorem ZeroIff.congr (h : ZeroIff p s low high x) (hpq : p ↔ q) : ZeroIff q s low high x := by
  cases h with
  | zero hp t h => exact .zero (hpq.mp hp) t h
  | sized hp h => exact .sized (fun hq => hp (hpq.mpr hq)) h

theorem ZeroIff.mono (h : ZeroIff p s low high x) (hlow : low' ≤ low) (hhigh : high ≤ high') :
    ZeroIff p s low' high' x := by
  cases h with
  | zero hp t h => exact .zero hp t h
  | sized hp h => exact .sized hp (h.mono hlow hhigh)

theorem zeroIff_of_beq (h : (x == 0) = true) : ZeroIff True s low high x := by
  obtain ⟨t, ht⟩ := unpack_of_beq_zero x h
  exact .zero trivial t ht

theorem ZeroIff.beq_zero_iff (h : ZeroIff p s low high x) : (x == 0) = true ↔ p := by
  rw [beq_zero]
  cases h with
  | zero hp t h =>
    rw [h]
    exact iff_of_true rfl hp
  | sized hp h =>
    generalize x.toModel.unpack = f at h
    cases h with
    | finite => cases s <;> exact iff_of_false Bool.false_ne_true hp

theorem unpack_pack_zero (t : Sign) :
    UnpackedFloat.unpack .binary32 (UnpackedFloat.pack .binary32 (.zero t)) = .zero t := by
  cases t <;> rfl

theorem mul_zero_sized (t : Sign) (h : Sized s low high f) :
    UnpackedFloat.mul .binary32 (.zero t) f = .zero (t * s) := by
  cases h with
  | finite => rfl

theorem mul_sized_zero (t : Sign) (h : Sized s low high f) :
    UnpackedFloat.mul .binary32 f (.zero t) = .zero (s * t) := by
  cases h with
  | finite => rfl

theorem ZeroIff.mul (hx : ZeroIff p s low high x) (hy : ZeroIff q s' low' high' y)
    (hlow : -172 ≤ low + low') (hhigh : high + high' ≤ 79) :
    ZeroIff (p ∨ q) (s * s') (low + low' + 23) (high + high' + 25) (x * y) := by
  cases hx with
  | zero hp t ht =>
    cases hy with
    | zero hq t' ht' =>
      refine .zero (.inl hp) (t * t') ?_
      rw [unpack_mul, ht, ht']
      exact unpack_pack_zero _
    | sized hq hy =>
      refine .zero (.inl hp) (t * s') ?_
      rw [unpack_mul, ht, mul_zero_sized t hy, unpack_pack_zero]
  | sized hp hx =>
    cases hy with
    | zero hq t' ht' =>
      refine .zero (.inr hq) (s * t') ?_
      rw [unpack_mul, ht', mul_sized_zero t' hx, unpack_pack_zero]
    | sized hq hy =>
      refine .sized (not_or.mpr ⟨hp, hq⟩) ?_
      have h := hx.mul hy hlow
      rwa [unpack_mul, h.unpack_pack (by omega) (by omega)]

theorem add_zero_sized (t : Sign) (h : Sized s low high f) :
    UnpackedFloat.add .binary32 (.zero t) f = f := by
  cases h with
  | finite => rfl

theorem add_sized_zero (t : Sign) (h : Sized s low high f) :
    UnpackedFloat.add .binary32 f (.zero t) = f := by
  cases h with
  | finite => rfl

theorem ZeroIff.add (hx : ZeroIff p .positive low high x) (hy : ZeroIff q .positive low high y)
    (hlow : -149 ≤ low) (hhigh : high ≤ 102) :
    ZeroIff (p ∧ q) .positive low (high + 2) (x + y) := by
  cases hx with
  | zero hp t ht =>
    cases hy with
    | zero hq t' ht' =>
      have hadd : ∃ t'', UnpackedFloat.add .binary32 (.zero t) (.zero t') = .zero t'' := by
        cases t <;> cases t' <;> exact ⟨_, rfl⟩
      obtain ⟨t'', hadd⟩ := hadd
      refine .zero ⟨hp, hq⟩ t'' ?_
      rw [unpack_add, ht, ht', hadd, unpack_pack_zero]
    | sized hq hy =>
      refine .sized (fun h => hq h.2) ?_
      rw [unpack_add, ht, add_zero_sized t hy, hy.unpack_pack hlow (by omega)]
      exact hy.mono le_rfl (by omega)
  | sized hp hx =>
    refine .sized (fun h => hp h.1) ?_
    cases hy with
    | zero hq t' ht' =>
      rw [unpack_add, ht', add_sized_zero t' hx, hx.unpack_pack hlow (by omega)]
      exact hx.mono le_rfl (by omega)
    | sized hq hy =>
      have h := hx.add hy hlow
      rwa [unpack_add, h.unpack_pack hlow (by omega)]

theorem ZeroIff.sqrt (h : ZeroIff p .positive low high x) (hlow : -149 ≤ low) (hhigh : high ≤ 104) :
    ZeroIff p .positive (-149) 104 x.sqrt := by
  cases h with
  | zero hp t ht =>
    refine .zero hp t ?_
    rw [unpack_sqrt, ht]
    exact unpack_pack_zero t
  | sized hp hx =>
    refine .sized hp ?_
    have h := hx.sqrt hlow hhigh
    rwa [unpack_sqrt, h.unpack_pack le_rfl le_rfl]

def isUnbounded : UnpackedFloat → Bool
  | .infinity _ => true
  | .notANumber => true
  | _ => false

theorem unpack_pack_unbounded (h : isUnbounded f = true) :
    UnpackedFloat.unpack .binary32 (UnpackedFloat.pack .binary32 f) = f := by
  cases f with
  | notANumber => rfl
  | infinity t => cases t <;> rfl
  | zero => cases h
  | finite => cases h

theorem isUnbounded_div (x y : Float32) (hy : (y == 0) = true) :
    isUnbounded (x / y).toModel.unpack = true := by
  obtain ⟨t, ht⟩ := unpack_of_beq_zero y hy
  have hdiv : isUnbounded (UnpackedFloat.div .binary32 x.toModel.unpack (.zero t)) = true := by
    cases x.toModel.unpack <;> rfl
  rwa [unpack_div, ht, unpack_pack_unbounded hdiv]

theorem isNaN_zero_mul (x y : Float32) (hx : (x == 0) = true)
    (hy : isUnbounded y.toModel.unpack = true) : (x * y).isNaN = true := by
  obtain ⟨t, ht⟩ := unpack_of_beq_zero x hx
  have hmul : UnpackedFloat.mul .binary32 (.zero t) y.toModel.unpack = .notANumber := by
    generalize y.toModel.unpack = f at hy
    cases f with
    | notANumber => rfl
    | infinity => rfl
    | zero => cases hy
    | finite => cases hy
  show (x * y).toModel.unpack.isNaN = true
  rw [unpack_mul, ht, hmul, unpack_pack_unbounded rfl]
  rfl

end CodeAtlas.Number
