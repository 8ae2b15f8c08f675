import Mathlib
import CodeAtlas.Json.Value

namespace CodeAtlas.Number

theorem le_of_fits (closed : Bool) (a b : Nat) (h : if closed then a ≤ b else a < b) : a ≤ b := by
  cases closed with
  | true => exact h
  | false => exact Nat.le_of_lt h

/-- The choice between two neighbours, whatever it means for them to fit. -/
theorem choice_bounds (below unit value high c : Nat) (p q : Prop) [Decidable p] [Decidable q]
    (hp : p → 0 < below) (hunder : below * unit ≤ high) (hq : q → (below + 1) * unit ≤ high)
    (h : (if p && q then
        some (if value - below * unit < (below + 1) * unit - value then below
          else if (below + 1) * unit - value < value - below * unit then below + 1
          else below + below % 2)
      else if p && below > 0 then some below
      else if q then some (below + 1)
      else none) = some c) : 0 < c ∧ c * unit ≤ high := by
  by_cases hfits : p ∧ q
  · rw [if_pos (by simpa using hfits)] at h
    have hbelow := hp hfits.1
    obtain ⟨hc, hc'⟩ : 0 < c ∧ c ≤ below + 1 := by
      obtain rfl := Option.some.inj h
      split
      · omega
      split
      · omega
      · omega
    exact ⟨hc, (Nat.mul_le_mul_right unit hc').trans (hq hfits.2)⟩
  rw [if_neg (by simpa using hfits)] at h
  split at h
  · next hfits =>
    obtain rfl := Option.some.inj h
    have hpos : p ∧ 0 < below := by simpa using hfits
    exact ⟨hpos.2, hunder⟩
  split at h
  · next hfits =>
    obtain rfl := Option.some.inj h
    exact ⟨Nat.succ_pos below, hq hfits⟩
  · cases h

theorem pick?_bounds (i : Interval) (k : Int) (c : Nat) (hlow : 0 < i.low)
    (hhigh : i.value ≤ i.high) (h : i.pick? k = some c) :
    0 < c ∧ c * (scales k i.exponent).1 ≤ i.high * (scales k i.exponent).2 := by
  have hscale : 0 < (scales k i.exponent).2 :=
    Nat.mul_pos (Nat.pow_pos (by decide)) (Nat.pow_pos (by decide))
  rw [Interval.pick?] at h
  generalize scales k i.exponent = s at h hscale ⊢
  obtain ⟨unit, scale⟩ := s
  refine choice_bounds _ unit _ _ c _ _ ?_ ?_ ?_ h
  · intro hfits
    have hle := le_of_fits _ _ _ hfits
    exact Nat.pos_of_mul_pos_right ((Nat.mul_pos hlow hscale).trans_le hle)
  · exact (Nat.div_mul_le_self _ _).trans (Nat.mul_le_mul_right scale hhigh)
  · exact le_of_fits _ _ _

theorem search_cases (i : Interval) (hlow : 0 < i.low) (hhigh : i.value ≤ i.high) (grids : Nat)
    (k : Int) :
    i.search grids k = ⟨0, k - grids⟩ ∨ ∃ c k', i.search grids k = ⟨c, k'⟩ ∧ 0 < c ∧
      c * (scales k' i.exponent).1 ≤ i.high * (scales k' i.exponent).2 := by
  induction grids generalizing k with
  | zero =>
    left
    rw [Interval.search]
    simp
  | succ grids ih =>
    rw [Interval.search]
    cases hpick : i.pick? k with
    | some c =>
      right
      exact ⟨c, k, rfl, pick?_bounds i k c hlow hhigh hpick⟩
    | none =>
      obtain h | h := ih (k - 1)
      · left
        dsimp only
        rw [h, Nat.cast_succ]
        congr 1
        omega
      · exact Or.inr h

def Decimal.magnitude (d : Decimal) : Int :=
  d.exponent + (Nat.toDigits 10 d.digits).length - 1

theorem ten_pow_le (n : Nat) (h : 0 < n) : 10 ^ ((Nat.toDigits 10 n).length - 1) ≤ n := by
  by_cases hlen : (Nat.toDigits 10 n).length ≤ 1
  · rw [Nat.sub_eq_zero_of_le hlen]
    exact h
  · have hiff := Nat.length_toDigits_le_iff (b := 10) (n := n)
      (k := (Nat.toDigits 10 n).length - 1) (by decide) (by omega)
    by_contra hlt
    have hle := hiff.mpr (by omega)
    omega

/-- On one scale, ten to the place of the leading digit lies below the interval's end. -/
theorem magnitude_le (c high : Nat) (k p : Int) (hc : 0 < c) (hhigh : high < 2 ^ 27) (hp : p ≤ 102)
    (h : c * (scales k p).1 ≤ high * (scales k p).2) : (⟨c, k⟩ : Decimal).magnitude ≤ 38 := by
  have hlead := ten_pow_le c hc
  have hlen := Nat.length_toDigits_pos (b := 10) (n := c)
  generalize hn : (Nat.toDigits 10 c).length = n at hlead hlen
  have hlow : 10 ^ (n - 1 + k.toNat) ≤ c * (scales k p).1 := by
    calc 10 ^ (n - 1 + k.toNat) = 10 ^ (n - 1) * 10 ^ k.toNat := Nat.pow_add ..
      _ ≤ c * 10 ^ k.toNat := Nat.mul_le_mul_right _ hlead
      _ ≤ c * (10 ^ k.toNat * 2 ^ (-p).toNat) :=
        Nat.mul_le_mul_left _ (Nat.le_mul_of_pos_right _ (by positivity))
  have htop : high * (scales k p).2 < 10 ^ (39 + (-k).toNat) := by
    calc high * (2 ^ p.toNat * 10 ^ (-k).toNat)
        ≤ 2 ^ 27 * (2 ^ 102 * 10 ^ (-k).toNat) := by gcongr <;> omega
      _ = 2 ^ 27 * 2 ^ 102 * 10 ^ (-k).toNat := (Nat.mul_assoc ..).symm
      _ < 10 ^ 39 * 10 ^ (-k).toNat := Nat.mul_lt_mul_of_pos_right (by norm_num) (by positivity)
      _ = 10 ^ (39 + (-k).toNat) := (Nat.pow_add ..).symm
  have hexp : n - 1 + k.toNat < 39 + (-k).toNat :=
    (Nat.pow_lt_pow_iff_right (by decide)).mp ((hlow.trans h).trans_lt htop)
  rw [Decimal.magnitude, hn]
  dsimp only
  omega

/-- The leading digit of a shortest decimal is not a zero, unless the search finds nothing. -/
theorem shortest_bounds (m : Nat) (e : Int) (hm : 0 < m) (hm' : m < 2 ^ 24) (he : e ≤ 104) :
    (0 < (shortest m e).digits ∨ (shortest m e).magnitude < -6) ∧
      (shortest m e).magnitude ≤ 38 := by
  have hlow : 0 < (Interval.around m e).low := by
    rw [Interval.around]
    dsimp only
    split <;> omega
  have hhigh : (Interval.around m e).high < 2 ^ 27 := by
    rw [Interval.around]
    dsimp only
    omega
  have hexponent : (Interval.around m e).exponent ≤ 102 := by
    rw [Interval.around]
    dsimp only
    omega
  rw [shortest]
  obtain h | ⟨c, k, h, hc, hle⟩ := search_cases (Interval.around m e) hlow
    (Nat.le_add_right _ 2) 100 39
  · rw [h]
    decide
  · rw [h]
    exact ⟨Or.inl hc, magnitude_le c _ k _ hc hhigh hexponent hle⟩

end CodeAtlas.Number
