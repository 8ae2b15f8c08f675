import Mathlib
import CodeAtlas.Explorer
import CodeAtlas.Proofs.Json.Acceptance
import CodeAtlas.Proofs.Number.Packing
import CodeAtlas.Proofs.Number.Positive
import CodeAtlas.Proofs.Settings.Saving

namespace CodeAtlas

open Float.Model (UnpackedFloat)

namespace Number

theorem lt_iff (x y : Float32) :
    x < y ↔ UnpackedFloat.lt x.toModel.unpack y.toModel.unpack = true :=
  decide_eq_true_iff

theorem greatest_of_lt (x : Float32) (h : x < 0) : greatest x 0 = 0 := by
  rw [greatest, decide_eq_true h, Bool.or_true, if_pos rfl]

theorem greatest_of_not_lt (x : Float32) (hx : x.isNaN = false) (h : ¬ x < 0) :
    greatest x 0 = x := by
  rw [greatest, hx, Bool.false_or, if_neg (by rwa [decide_eq_true_eq])]

theorem roundDiv_le (n d : Nat) : roundDiv n d ≤ n + 1 := by
  have hle := Nat.div_le_self n d
  simp only [roundDiv]
  split
  · omega
  split
  · omega
  · omega

end Number

open Number

namespace Duration

/-- The least number of seconds that needs more than 64 bits. -/
def secondsLimit : Float32 := 18446744073709551616

theorem unpack_secondsLimit :
    secondsLimit.toModel.unpack = .finite .positive (2 ^ 23) 41 (by decide) := by
  rfl

/-- With a leading bit in its place, the exponent alone tells how large a number is. -/
theorem roundScaled_lt_iff (m : Nat) (e : Int) (hm : m < 2 ^ 24) (hlead : -149 < e → 2 ^ 23 ≤ m) :
    roundScaled perSecond m e < Nat.pow 2 64 * perSecond ↔ e < 41 := by
  rw [roundScaled]
  split
  · next he =>
    obtain ⟨k, rfl⟩ := Int.eq_ofNat_of_zero_le he
    rw [Nat.mul_lt_mul_right (by decide), Int.toNat_natCast]
    constructor
    · intro hlt
      by_contra hk
      have hpow : 2 ^ 41 ≤ 2 ^ k := Nat.pow_le_pow_right (by decide) (by omega)
      have hge : 2 ^ 23 * 2 ^ 41 ≤ m * 2 ^ k := Nat.mul_le_mul (hlead (by omega)) hpow
      exact absurd hlt (Nat.not_lt.mpr hge)
    · intro hk
      have hpow : 2 ^ k ≤ 2 ^ 40 := Nat.pow_le_pow_right (by decide) (by omega)
      calc m * 2 ^ k < 2 ^ 24 * 2 ^ k := Nat.mul_lt_mul_of_pos_right hm (Nat.two_pow_pos k)
        _ ≤ 2 ^ 24 * 2 ^ 40 := Nat.mul_le_mul_left _ hpow
  · next he =>
    have hle := roundDiv_le (m * perSecond) (Nat.pow 2 (-e).toNat)
    have hlt : m * perSecond + 1 < Nat.pow 2 64 * perSecond := by
      change m * 1000000000 + 1 < 18446744073709551616 * 1000000000
      omega
    exact ⟨fun _ => by omega, fun _ => hle.trans_lt hlt⟩

theorem ofSeconds?_finite (x : Float32) (m : Nat) (e : Int)
    (hx : parts x = .finite false m e) (d : Duration) :
    ofSeconds? x = some d ↔
      roundScaled perSecond m e < Nat.pow 2 64 * perSecond ∧ d = roundScaled perSecond m e := by
  rw [ofSeconds?, hx]
  simp [eq_comm]

theorem ofSeconds?_zero : ofSeconds? 0 = some 0 := by
  decide +kernel

theorem lt_secondsLimit_of_lt_zero (x : Float32) (h : x < 0) : x < secondsLimit := by
  rw [lt_iff, unpack_zero] at h
  rw [lt_iff, unpack_secondsLimit]
  generalize x.toModel.unpack = f at h ⊢
  cases f with
  | notANumber => cases h
  | zero s => cases h
  | infinity s =>
    cases s with
    | negative => rfl
    | positive => cases h
  | finite s m e hm =>
    cases s with
    | negative => rfl
    | positive => cases h

theorem lt_secondsLimit_iff (x : Float32) (m : Nat) (e : Int) (hm : 0 < m)
    (hx : x.toModel.unpack = .finite .positive m e hm) : x < secondsLimit ↔ e < 41 := by
  obtain ⟨_, _, hlead⟩ := ranges_of_unpack x .positive m e hm hx
  rw [lt_iff, unpack_secondsLimit, hx, UnpackedFloat.lt, UnpackedFloat.compare]
  simp only [beq_iff_eq, Option.some.injEq, Ordering.then_eq_lt, compare_lt_iff_lt,
    compare_eq_iff_eq]
  omega

theorem exists_ofSeconds?_of_not_lt (x : Float32) (hx : x.isNaN = false) (h : ¬ x < 0) :
    (∃ d, ofSeconds? x = some d) ↔ x < secondsLimit := by
  have hnumber : x.toModel.unpack.isNaN = false := hx
  have hparts := parts_eq x
  rw [lt_iff, unpack_zero] at h
  cases hu : x.toModel.unpack with
  | notANumber =>
    rw [hu] at hnumber
    cases hnumber
  | infinity s =>
    rw [hu] at hparts h
    cases s with
    | negative => exact absurd rfl h
    | positive =>
      rw [lt_iff, unpack_secondsLimit, hu, ofSeconds?, hparts]
      constructor
      · rintro ⟨d, hd⟩
        cases hd
      · intro hlt
        cases hlt
  | zero s =>
    rw [hu] at hparts
    rw [lt_iff, unpack_secondsLimit, hu, ofSeconds?, hparts]
    refine ⟨fun _ => rfl, fun _ => ⟨0, ?_⟩⟩
    simp only [partsOf]
    cases s <;> decide +kernel
  | finite s m e hm =>
    rw [hu] at hparts h
    cases s with
    | negative => exact absurd rfl h
    | positive =>
      obtain ⟨hlt, _, hlead⟩ := ranges_of_unpack x .positive m e hm hu
      rw [lt_secondsLimit_iff x m e hm hu, ← roundScaled_lt_iff m e hlt hlead]
      simp only [ofSeconds?_finite x m e hparts, exists_eq_right]

/-- There is a time for every number of seconds below the limit, none at all being the least. -/
theorem exists_ofSeconds?_greatest (x : Float32) (hx : x.isNaN = false) :
    (∃ d, ofSeconds? (greatest x 0) = some d) ↔ x < secondsLimit := by
  by_cases h : x < 0
  · rw [greatest_of_lt x h]
    exact ⟨fun _ => lt_secondsLimit_of_lt_zero x h, fun _ => ⟨0, ofSeconds?_zero⟩⟩
  · rw [greatest_of_not_lt x hx h]
    exact exists_ofSeconds?_of_not_lt x hx h

end Duration

open Json

namespace LayoutSettings

theorem exists_autoStop_iff (s : LayoutSettings) (h : s.autoStopSeconds.isNaN = false) :
    (∃ d, s.autoStop = .ok d) ↔ s.autoStopSeconds < Duration.secondsLimit := by
  rw [← Duration.exists_ofSeconds?_greatest _ h, autoStop]
  cases Duration.ofSeconds? (greatest s.autoStopSeconds 0) with
  | none => simp
  | some d => simp

theorem yields_reader : Yields reader fun s => s.autoStopSeconds.isNaN = false := by
  refine yields_record fields _ ?_ default (by decide +kernel)
  simp only [fields, List.forall_mem_cons, List.not_mem_nil, false_implies, implies_true, and_true]
  constructor
  · exact Field.keeps_of_set _ _ _ _ fun _ _ hs => hs
  · exact Field.keeps_defaulted _ _ _ _ isNaN_of_singleNumber _ fun _ _ hx _ => hx

end LayoutSettings

theorem Explorer.exists_start_iff (c : Codebase) (layout : LayoutSettings) (viewport : Point)
    (now : Instant) :
    (∃ e, start c layout viewport now = .ok e) ↔ ∃ d, layout.autoStop = .ok d := by
  rw [start]
  cases layout.autoStop with
  | error err => simp [bind, Except.bind]
  | ok d => simp [bind, Except.bind, pure, Except.pure]

namespace Settings

theorem yields_reader : Yields reader fun s => s.layout.autoStopSeconds.isNaN = false := by
  refine yields_record fields _ ?_ default (by decide +kernel)
  simp only [fields, List.forall_mem_cons, List.not_mem_nil, false_implies, implies_true, and_true]
  refine ⟨?_, ?_, ?_, ?_, ?_⟩
  · exact Field.keeps_of_set _ _ _ _ fun _ _ hs => hs
  · exact Field.keeps_of_set _ _ _ _ fun _ _ hs => hs
  · exact Field.keeps_of_set _ _ _ _ fun _ _ hs => hs
  · exact Field.keeps_of_set _ _ _ _ fun _ _ hs => hs
  · exact Field.keeps_defaulted _ _ _ _ LayoutSettings.yields_reader _ fun _ _ hl _ => hl

/-- Whatever a settings file holds, there is a time to stop and a viewer starts if and only if the
seconds are fewer than 64 bits can count. -/
theorem stopping_time_exists_iff (text : String) (s : Settings)
    (h : ofFile? (some text) = .ok s) :
    ((∃ d, s.layout.autoStop = .ok d) ↔
      s.layout.autoStopSeconds < Duration.secondsLimit) ∧
    ∀ c viewport now, (∃ e, Explorer.start c s.layout viewport now = .ok e) ↔
      s.layout.autoStopSeconds < Duration.secondsLimit := by
  have hnumber := yields_reader.read reader _ text s ((ofFile?_eq_ok_iff text s).mp h)
  have hstop := s.layout.exists_autoStop_iff hnumber
  refine ⟨hstop, ?_⟩
  intro c viewport now
  rw [Explorer.exists_start_iff, hstop]

theorem stopping_time_exists_latest :
    ∃ s, ofFile? (some "\x7b\"layout\":\x7b\"auto_stop_secs\":1.8446743e19\x7d\x7d") = .ok s ∧
      (∃ d, s.layout.autoStop = .ok d) ∧
      ∀ c viewport now, ∃ e, Explorer.start c s.layout viewport now = .ok e := by
  obtain ⟨s, hs, hlt⟩ := exists_of_toOption
    "\x7b\"layout\":\x7b\"auto_stop_secs\":1.8446743e19\x7d\x7d"
    (fun s => s.layout.autoStopSeconds < Duration.secondsLimit) (by decide +kernel)
  obtain ⟨hstop, hstart⟩ := stopping_time_exists_iff _ s hs
  have hlt := of_decide_eq_true hlt
  exact ⟨s, hs, hstop.mpr hlt, fun c viewport now => (hstart c viewport now).mpr hlt⟩

/-- A finite number of seconds that is too large is read, and no viewer starts with it. -/
theorem no_start_after_long_stopping_time :
    ∃ s, ofFile? (some "\x7b\"layout\":\x7b\"auto_stop_secs\":1e20\x7d\x7d") = .ok s ∧
      s.layout.autoStopSeconds.isFinite = true ∧ s.layout.autoStop = .error .outOfRange ∧
      ∀ c viewport now, Explorer.start c s.layout viewport now = .error .outOfRange := by
  obtain ⟨s, hs, hlong⟩ := exists_of_toOption
    "\x7b\"layout\":\x7b\"auto_stop_secs\":1e20\x7d\x7d"
    (fun s => s.layout.autoStopSeconds.isFinite && !s.layout.autoStop.isOk) (by decide +kernel)
  rw [Bool.and_eq_true] at hlong
  have hstop : s.layout.autoStop = .error .outOfRange := by
    cases ha : s.layout.autoStop with
    | error err => rfl
    | ok d =>
      rw [ha] at hlong
      cases hlong.2
  refine ⟨s, hs, hlong.1, hstop, ?_⟩
  intro c viewport now
  rw [Explorer.start, hstop]
  rfl

end Settings

end CodeAtlas
