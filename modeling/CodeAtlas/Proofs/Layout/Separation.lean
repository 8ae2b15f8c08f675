import Mathlib
import CodeAtlas.Layout.Simulation
import CodeAtlas.Proofs.Number.Zero

namespace CodeAtlas

open Float.Model.UnpackedFloat Number

def mix (k z : UInt64) : UInt64 :=
  z ^^^ (z >>> k)

/-- Undo a round whose shift is between a third and a half of the word. -/
def unmix (k z : UInt64) : UInt64 :=
  z ^^^ (z >>> k) ^^^ (z >>> (k + k))

section Mix

variable (k z : UInt64)

theorem toNat_double (hk' : k.toNat < 32) : (k + k).toNat = k.toNat + k.toNat := by
  rw [UInt64.toNat_add]
  omega

theorem shiftRight_thrice (hk : 22 ≤ k.toNat) (hk' : k.toNat < 32) : z >>> k >>> (k + k) = 0 := by
  apply UInt64.toNat_inj.mp
  rw [UInt64.toNat_shiftRight, UInt64.toNat_shiftRight, toNat_double k hk', ← Nat.shiftRight_add,
    Nat.mod_eq_of_lt (by omega), Nat.mod_eq_of_lt (by omega), UInt64.toNat_zero,
    Nat.shiftRight_eq_zero]
  calc z.toNat < 2 ^ 64 := z.toNat_lt
    _ ≤ 2 ^ (k.toNat + (k.toNat + k.toNat)) := Nat.pow_le_pow_right (by decide) (by omega)

theorem shiftRight_twice (hk' : k.toNat < 32) : z >>> k >>> k = z >>> (k + k) := by
  apply UInt64.toNat_inj.mp
  rw [UInt64.toNat_shiftRight, UInt64.toNat_shiftRight, UInt64.toNat_shiftRight,
    toNat_double k hk', ← Nat.shiftRight_add, Nat.mod_eq_of_lt (by omega), Nat.mod_eq_of_lt (by omega)]

theorem unmix_mix (hk : 22 ≤ k.toNat) (hk' : k.toNat < 32) : unmix k (mix k z) = z := by
  rw [mix, unmix, UInt64.shiftRight_xor, UInt64.shiftRight_xor, shiftRight_thrice k z hk hk',
    shiftRight_twice k z hk']
  generalize z >>> k = a
  generalize z >>> (k + k) = b
  calc z ^^^ a ^^^ (a ^^^ b) ^^^ (b ^^^ 0) = z ^^^ (a ^^^ a) ^^^ (b ^^^ b) ^^^ 0 := by ac_rfl
    _ = z := by simp

theorem mix_unmix (hk : 22 ≤ k.toNat) (hk' : k.toNat < 32) : mix k (unmix k z) = z := by
  have hthrice : z >>> (k + k) >>> k = 0 := by
    rw [← shiftRight_twice k z hk', shiftRight_twice k _ hk', shiftRight_thrice k z hk hk']
  rw [mix, unmix, UInt64.shiftRight_xor, UInt64.shiftRight_xor, hthrice, shiftRight_twice k z hk']
  generalize z >>> k = a
  generalize z >>> (k + k) = b
  calc z ^^^ a ^^^ b ^^^ (a ^^^ b ^^^ 0) = z ^^^ (a ^^^ a) ^^^ (b ^^^ b) ^^^ 0 := by ac_rfl
    _ = z := by simp

end Mix

def unscramble (w : UInt64) : UInt64 :=
  unmix 30 (unmix 27 (unmix 31 w * 0x319642B2D24D8EC3) * 0x96DE1B173F119089) - 0x9E3779B97F4A7C15

theorem scramble_eq (seed : UInt64) : scramble seed =
    mix 31 (mix 27 (mix 30 (seed + 0x9E3779B97F4A7C15) * 0xBF58476D1CE4E5B9) *
      0x94D049BB133111EB) :=
  rfl

@[simp] theorem unscramble_scramble (seed : UInt64) : unscramble (scramble seed) = seed := by
  rw [scramble_eq, unscramble, unmix_mix 31 _ (by decide) (by decide), UInt64.mul_assoc]
  have h₁ : (0x94D049BB133111EB : UInt64) * 0x319642B2D24D8EC3 = 1 := by decide
  have h₂ : (0xBF58476D1CE4E5B9 : UInt64) * 0x96DE1B173F119089 = 1 := by decide
  rw [h₁, UInt64.mul_one, unmix_mix 27 _ (by decide) (by decide), UInt64.mul_assoc, h₂,
    UInt64.mul_one, unmix_mix 30 _ (by decide) (by decide), UInt64.add_sub_cancel]

@[simp] theorem scramble_unscramble (w : UInt64) : scramble (unscramble w) = w := by
  rw [scramble_eq, unscramble, UInt64.sub_add_cancel, mix_unmix 30 _ (by decide) (by decide),
    UInt64.mul_assoc]
  have h₁ : (0x319642B2D24D8EC3 : UInt64) * 0x94D049BB133111EB = 1 := by decide
  have h₂ : (0x96DE1B173F119089 : UInt64) * 0xBF58476D1CE4E5B9 = 1 := by decide
  rw [h₂, UInt64.mul_one, mix_unmix 27 _ (by decide) (by decide), UInt64.mul_assoc, h₁,
    UInt64.mul_one, mix_unmix 31 _ (by decide) (by decide)]

theorem toNat_sample (seed : UInt64) : (sample seed).toNat = (scramble seed).toNat / 2 ^ 40 := by
  rw [sample, UInt64.toNat_shiftRight, Nat.shiftRight_eq_div_pow]
  rfl

theorem sample_lt (seed : UInt64) : (sample seed).toNat < 2 ^ 24 := by
  have hlt := (scramble seed).toNat_lt
  rw [toNat_sample]
  omega

/-- The seeds whose sample is the middle one, one for each value of the bits that are dropped. -/
theorem sample_middle_iff (seed : UInt64) : (sample seed).toNat = 2 ^ 23 ↔
    ∃ low < 2 ^ 40, seed = unscramble (UInt64.ofNat (2 ^ 63 + low)) := by
  rw [toNat_sample]
  constructor
  · intro h
    refine ⟨(scramble seed).toNat - 2 ^ 63, by omega, ?_⟩
    rw [Nat.add_sub_of_le (by omega), UInt64.ofNat_toNat, unscramble_scramble]
  · rintro ⟨low, hlow, rfl⟩
    rw [scramble_unscramble, UInt64.toNat_ofNat_of_lt' (by rw [UInt64.size]; omega)]
    omega

theorem unpack_16777216 :
    (16777216 : Float32).toModel.unpack = .finite .positive (2 ^ 23) 1 (by decide) := by
  rfl

theorem unpack_half :
    (0.5 : Float32).toModel.unpack = .finite .positive (2 ^ 23) (-24) (by decide) := by
  rfl

theorem unpack_millionth :
    (1e-6 : Float32).toModel.unpack = .finite .positive 8796093 (-43) (by decide) := by
  rfl

theorem unpack_share (k : UInt64) (hk : k.toNat ≠ 0) (hlt : k.toNat < 2 ^ 24) :
    (k.toFloat32 / 16777216).toModel.unpack =
      .finite .positive (k.toNat <<< (23 - k.toNat.log2)) (k.toNat.log2 - 47)
        (Nat.shiftLeft_pos_iff.mpr (Nat.pos_of_ne_zero hk)) := by
  have hlog : k.toNat.log2 < 24 := (Nat.log2_lt hk).mpr hlt
  have hshift := log2_shiftLeft k.toNat (23 - k.toNat.log2) hk
  have hexponent : (k.toNat.log2 : Int) - 23 - 1 - 23 = k.toNat.log2 - 47 := by omega
  rw [unpack_div, unpack_toFloat32 k hk hlt, unpack_16777216,
    div_power _ _ _ _ _ (by omega) (by omega), unpack_pack_full _ _ _ _ (by omega) (by omega)
    (by omega)]
  simp only [hexponent]

theorem zeroIff_centered (k : UInt64) (hlt : k.toNat < 2 ^ 24) :
    ∃ s, ZeroIff (k.toNat = 2 ^ 23) s (-47) (-24) (k.toFloat32 / 16777216 - 0.5) := by
  by_cases hk : k.toNat = 0
  · obtain rfl : k = 0 := UInt64.toNat_inj.mp hk
    exact ⟨.negative, .sized (by decide)
      (.finite (2 ^ 23) (-24) (by decide) (by decide) (by decide) (by decide))⟩
  by_cases hmiddle : k.toNat = 2 ^ 23
  · obtain rfl : k = 0x800000 := UInt64.toNat_inj.mp hmiddle
    exact ⟨.positive, .zero rfl .positive rfl⟩
  -- share and half have one last place, and differ there by less than `2 ^ 23` steps of the sample
  have hlog : k.toNat.log2 < 24 := (Nat.log2_lt hk).mpr hlt
  have hamount : (-24 - ((k.toNat.log2 : Int) - 47)).toNat = 23 - k.toNat.log2 := by omega
  have hne : (k.toNat - (2 ^ 23 : Nat) : Int).natAbs ≠ 0 := by omega
  have hsteps : (k.toNat - (2 ^ 23 : Nat) : Int).natAbs.log2 < 23 := by
    rw [Nat.log2_lt hne]
    omega
  have hdiff := log2_shiftLeft _ (23 - k.toNat.log2) hne
  have hpos : 0 < _ <<< (23 - k.toNat.log2) :=
    Nat.shiftLeft_pos_iff.mpr (Nat.pos_of_ne_zero hne)
  rw [← natAbs_sub_shiftLeft] at hdiff hpos
  obtain ⟨s, hs⟩ := sized_normalize
    ((k.toNat <<< (23 - k.toNat.log2) : Nat) - (2 ^ 23 <<< (23 - k.toNat.log2) : Nat))
    (k.toNat.log2 - 47) .positive (by omega) (by omega)
  refine ⟨s, .sized hmiddle ?_⟩
  rw [unpack_sub, unpack_share k hk hlt, unpack_half, sub_of_le _ _ _ _ _ _ (by omega), hamount,
    hs.unpack_pack (by omega) (by omega)]
  exact hs.mono (by omega) (by omega)

theorem zeroIff_nudge (seed : UInt64) :
    ∃ s, ZeroIff ((sample seed).toNat = 2 ^ 23) s (-67) (-42) (nudge seed) := by
  obtain ⟨s, hs⟩ := zeroIff_centered (sample seed) (sample_lt seed)
  have hmillionth : ZeroIff False .positive (-43) (-43) 1e-6 := by
    refine .sized not_false ?_
    rw [unpack_millionth]
    exact .finite _ _ _ (by decide) le_rfl le_rfl
  have h := hs.mul hmillionth (by decide) (by decide)
  exact ⟨s * .positive, h.congr (or_false _).to_iff⟩

theorem zeroIff_square {p : Prop} {s : Sign} {x : Float32} (h : ZeroIff p s (-67) (-42) x) :
    ZeroIff p .positive (-111) (-59) (x * x) := by
  have hs : s * s = .positive := by cases s <;> rfl
  have h := h.mul h (by decide) (by decide)
  rw [hs] at h
  exact h.congr (or_self p).to_iff

def Idle (seed : UInt64) : Prop :=
  (sample seed).toNat = 2 ^ 23 ∧ (sample (turnSeed seed)).toNat = 2 ^ 23

instance (seed : UInt64) : Decidable (Idle seed) :=
  inferInstanceAs (Decidable (_ ∧ _))

namespace Quadtree

def pullLength (d : Point) (seed : UInt64) : Float32 :=
  let dist2 := d.separatedSquare d.lengthSquared seed
  if dist2 < softening then (softening * dist2).sqrt else dist2

theorem pull_eq (d : Point) (weight alpha : Float32) (seed : UInt64) :
    pull d weight alpha seed = d.separated seed * (weight * alpha / pullLength d seed) :=
  rfl

end Quadtree

section Coincident

variable {d : Point} (hx : (d.x == 0) = true) (hy : (d.y == 0) = true) (seed : UInt64)

include hx hy

theorem separated_of_coincident : d.separated seed = ⟨nudge seed, nudge (turnSeed seed)⟩ := by
  rw [Point.separated, if_pos hx, if_pos hy]

theorem zeroIff_lengthSquared_separated :
    ZeroIff (Idle seed) .positive (-111) (-57) (d.separated seed).lengthSquared := by
  obtain ⟨s, hs⟩ := zeroIff_nudge seed
  obtain ⟨t, ht⟩ := zeroIff_nudge (turnSeed seed)
  rw [separated_of_coincident hx hy seed]
  exact (zeroIff_square hs).add (zeroIff_square ht) (by decide) (by decide)

theorem lengthSquared_of_coincident : (d.lengthSquared == 0) = true := by
  have hx := zeroIff_square (s := .positive) (zeroIff_of_beq hx)
  have hy := zeroIff_square (s := .positive) (zeroIff_of_beq hy)
  exact (hx.add hy (by decide) (by decide)).beq_zero_iff.mpr ⟨trivial, trivial⟩

theorem zeroIff_separatedSquare :
    ZeroIff (Idle seed) .positive (-111) (-55) (d.separatedSquare d.lengthSquared seed) := by
  obtain ⟨s, hs⟩ := zeroIff_nudge seed
  obtain ⟨t, ht⟩ := zeroIff_nudge (turnSeed seed)
  have hsum : Point.separatedSquare d d.lengthSquared seed =
      d.lengthSquared + nudge seed * nudge seed +
        nudge (turnSeed seed) * nudge (turnSeed seed) := by
    simp only [Point.separatedSquare, separated_of_coincident hx hy seed, hx, hy, if_true]
  have hzero : ZeroIff True .positive (-111) (-59) d.lengthSquared :=
    zeroIff_of_beq (lengthSquared_of_coincident hx hy)
  have hfirst := hzero.add (zeroIff_square hs) (by decide) (by decide)
  rw [hsum]
  refine (hfirst.add ((zeroIff_square ht).mono le_rfl (by decide)) (by decide) (by decide)).congr ?_
  rw [true_and, Idle]

theorem Quadtree.zeroIff_pullLength :
    ZeroIff (Idle seed) .positive (-149) 104 (pullLength d seed) := by
  have hsquare := zeroIff_separatedSquare hx hy seed
  have hone : ZeroIff False .positive (-23) (-23) softening := by
    refine .sized not_false ?_
    exact .finite (2 ^ 23) (-23) (by decide) (by decide) le_rfl le_rfl
  rw [pullLength]
  split
  · refine ((hone.mul hsquare (by decide) (by decide)).sqrt (by decide) (by decide)).congr ?_
    rw [false_or]
  · exact hsquare.mono (by decide) (by decide)

end Coincident

def Point.IsLost (p : Point) : Prop :=
  p.x.isNaN = true ∧ p.y.isNaN = true

/-- Coincident points are moved apart for every seed that is not idle: the lengths that the forces
between them are divided by are zero for the idle seeds alone, which are found by running the
scrambling backwards. For these the repulsion is lost, whatever its strength. -/
theorem coincident_length_zero_iff (d : Point) (hx : (d.x == 0) = true) (hy : (d.y == 0) = true)
    (seed : UInt64) :
    (((nudge seed == 0) = true ∧ (nudge (turnSeed seed) == 0) = true) ↔ Idle seed) ∧
    (((d.separated seed).length == 0) = true ↔ Idle seed) ∧
    ((Quadtree.pullLength d seed == 0) = true ↔ Idle seed) ∧
    (((d.separatedSquare d.lengthSquared seed).sqrt == 0) = true ↔ Idle seed) ∧
    (Idle seed → ∀ weight alpha, (Quadtree.pull d weight alpha seed).IsLost) ∧
    (Idle seed ↔ (∃ low < 2 ^ 40, seed = unscramble (UInt64.ofNat (2 ^ 63 + low))) ∧
      ∃ low < 2 ^ 40, turnSeed seed = unscramble (UInt64.ofNat (2 ^ 63 + low))) := by
  obtain ⟨s, hs⟩ := zeroIff_nudge seed
  obtain ⟨t, ht⟩ := zeroIff_nudge (turnSeed seed)
  have hlink := (zeroIff_lengthSquared_separated hx hy seed).sqrt (by decide) (by decide)
  have hpull := Quadtree.zeroIff_pullLength hx hy seed
  have hcontact := (zeroIff_separatedSquare hx hy seed).sqrt (by decide) (by decide)
  refine ⟨and_congr hs.beq_zero_iff ht.beq_zero_iff, hlink.beq_zero_iff, hpull.beq_zero_iff,
    hcontact.beq_zero_iff, ?_, and_congr (sample_middle_iff seed) (sample_middle_iff _)⟩
  intro hidle weight alpha
  -- the length is zero, so the quotient is not finite, and zero times that is no number
  have hlost := isUnbounded_div (weight * alpha) _ (hpull.beq_zero_iff.mpr hidle)
  rw [Quadtree.pull_eq, separated_of_coincident hx hy seed]
  exact ⟨isNaN_zero_mul _ _ (hs.beq_zero_iff.mpr hidle.1) hlost,
    isNaN_zero_mul _ _ (ht.beq_zero_iff.mpr hidle.2) hlost⟩

theorem coincident_length_zero_iff_origin :
    ((Point.zero.separated 1).length == 0) = false ∧
      (Quadtree.pull Point.zero (-300) 1 5363059067138678420).IsLost := by
  obtain ⟨_, hlink, _⟩ := coincident_length_zero_iff Point.zero rfl rfl 1
  obtain ⟨_, _, _, _, hlost, _⟩ :=
    coincident_length_zero_iff Point.zero rfl rfl 5363059067138678420
  constructor
  · rw [← Bool.not_eq_true, hlink]
    decide +kernel
  · exact hlost (by decide +kernel) (-300) 1

/-- There are idle seeds: neither coordinate of two coincident points is offset, and the force
between them is lost. In the collisions of round 99, the particles 171554 and 236469 have one. -/
theorem idle_seed_keeps_coincident :
    (sample 5363059067138678420).toNat = 2 ^ 23 ∧
    (sample (turnSeed 5363059067138678420)).toNat = 2 ^ 23 ∧
    (nudge 5363059067138678420 == 0) = true ∧
    (nudge (turnSeed 5363059067138678420) == 0) = true ∧
    ((Quadtree.forceAt (-300) 1 0.81 5363059067138678421 [⟨5, 5⟩, ⟨5, 5⟩] 0).toOption.map
      fun p => p.x.isNaN && p.y.isNaN) = some true ∧
    Idle (Simulation.salt 99 3 ^^^
      (((171554 : Nat).toUInt64 <<< 20) ||| (236469 : Nat).toUInt64)) := by
  decide +kernel

end CodeAtlas
