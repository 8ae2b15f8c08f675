import Mathlib
import CodeAtlas.Proofs.Json.Grammar
import CodeAtlas.Proofs.Json.Quantity
import CodeAtlas.Proofs.Number.Shortest

namespace CodeAtlas.Json

namespace Numeral

def fractionText : Option (List Char) → List Char
  | none => []
  | some run => '.' :: run

def exponentText : Option Int → List Char
  | none => []
  | some e => 'e' :: (if e < 0 then '-' else '+') :: decimalDigits e.natAbs

/-- A numeral as the writer spells it: without its own sign, but with that of its exponent. -/
def body (n : Numeral) : List Char :=
  n.whole ++ (fractionText n.fraction ++ exponentText n.exponent)

structure WellSpelled (n : Numeral) : Prop where
  whole : Digits n.whole
  leading : ∀ c more, n.whole ≠ '0' :: c :: more
  fraction : ∀ run, n.fraction = some run → Digits run

theorem head_exponentText (e : Option Int) (c : Char) (h : (exponentText e).head? = some c) :
    c = 'e' := by
  cases e with
  | none => cases h
  | some e => exact (Option.some.inj h).symm

theorem head_fractionText (f : Option (List Char)) (e : Option Int) (c : Char)
    (h : (fractionText f ++ exponentText e).head? = some c) : c.isDigit = false := by
  cases f with
  | none =>
    obtain rfl := head_exponentText e c h
    rfl
  | some run =>
    obtain rfl := Option.some.inj h
    rfl

@[simp] theorem natOfDigits_decimalDigits (n : Nat) : natOfDigits (decimalDigits n) = n := by
  have hfold : ∀ run, natOfDigits run = Nat.ofDigitChars 10 run 0 := by
    intro run
    rw [natOfDigits, Nat.ofDigitChars_eq_foldl]
    simp only [digitValue, Nat.mul_comm]
  rw [hfold, decimalDigits, Nat.ofDigitChars_ten_toDigits]

theorem digits_decimalDigits (n : Nat) : Digits (decimalDigits n) :=
  ⟨Nat.toDigits_ne_nil, isDigit_of_mem_decimalDigits n⟩

theorem exponent_exponentText (short : ReadError) (e : Option Int) :
    Json.exponent short (exponentText e) = .ok (e, []) := by
  cases e with
  | none => rfl
  | some e =>
    have hd := digits_append short _ (digits_decimalDigits e.natAbs) [] (by simp)
    rw [List.append_nil] at hd
    rw [exponentText, Json.exponent, if_pos (Or.inl rfl)]
    split
    · rw [signedExponent, hd, ok_bind]
      simp only [natOfDigits_decimalDigits, ok_bind]
      congr 3
      omega
    · rw [signedExponent, hd, ok_bind]
      simp only [natOfDigits_decimalDigits, ok_bind]
      congr 3
      omega

theorem fractionDigits_text (short : ReadError) (f : Option (List Char)) (e : Option Int)
    (hf : ∀ run, f = some run → Digits run) :
    fractionDigits short (fractionText f ++ exponentText e) = .ok (f, exponentText e) := by
  cases f with
  | none =>
    cases e with
    | none => rfl
    | some e => rfl
  | some run =>
    have hd := digits_append short run (hf run rfl) (exponentText e) fun c hc => by
      rw [head_exponentText e c hc]
      rfl
    rw [fractionText, List.cons_append, fractionDigits, hd, ok_bind]

theorem unsigned_body (n : Numeral) (h : n.WellSpelled) (short : ReadError) (negative : Bool) :
    unsigned short negative n.body = .ok ({ n with negative }, []) := by
  have hwhole : wholeDigits short n.body =
      .ok (n.whole, fractionText n.fraction ++ exponentText n.exponent) :=
    (wholeDigits_eq_ok_iff _ _ _ _).mpr
      ⟨digits_append short n.whole h.whole _ (head_fractionText _ _), h.leading⟩
  rw [unsigned, hwhole, ok_bind]
  dsimp only
  rw [fractionDigits_text short _ _ h.fraction, ok_bind]
  dsimp only
  rw [exponent_exponentText, ok_bind]

theorem numeral_body (n : Numeral) (h : n.WellSpelled) (short : ReadError) (negative : Bool) :
    numeral short ((if negative then ['-'] else []) ++ n.body) = .ok ({ n with negative }, []) := by
  cases negative with
  | true => exact n.unsigned_body h short true
  | false =>
    rw [if_neg Bool.false_ne_true, List.nil_append, numeral, n.unsigned_body h short false]
    intro rest he
    obtain ⟨c, cs, hc, hdigit⟩ := h.whole.exists_cons
    rw [body, hc] at he
    obtain ⟨rfl, _⟩ := List.cons.inj he
    cases hdigit

theorem isDigit_of_mem_zeros (n : Nat) (c : Char) (h : c ∈ List.replicate n '0') :
    c.isDigit = true := by
  rw [List.eq_of_mem_replicate h]
  rfl

theorem leading_of_head (whole : List Char) (h : whole.head? ≠ some '0') (c : Char)
    (more : List Char) : whole ≠ '0' :: c :: more := by
  rintro rfl
  exact h rfl

theorem wellSpelled_single (c : Char) (hc : c.isDigit = true) (fraction : Option (List Char))
    (e : Option Int) (hf : ∀ run, fraction = some run → Digits run) :
    WellSpelled ⟨false, [c], fraction, e⟩ where
  whole := ⟨List.cons_ne_nil c [], List.forall_mem_singleton.mpr hc⟩
  leading _ _ he := by cases he
  fraction := hf

theorem wellSpelled_exponent (c : Char) (cs : List Char) (h : Digits (c :: cs)) (e : Int) :
    WellSpelled ⟨false, [c], if cs = [] then none else some cs, some e⟩ := by
  refine wellSpelled_single c (h.2 c List.mem_cons_self) _ _ ?_
  intro run he
  split at he
  · cases he
  · next hne =>
    cases he
    exact ⟨hne, fun d hd => h.2 d (List.mem_cons_of_mem c hd)⟩

variable (run : List Char) (h : Digits run)

include h

theorem wellSpelled_zeros_behind (hhead : run.head? ≠ some '0') (zeros : Nat) :
    WellSpelled ⟨false, run ++ List.replicate zeros '0', some ['0'], none⟩ where
  whole := ⟨List.append_ne_nil_of_left_ne_nil h.1 _,
    List.forall_mem_append.mpr ⟨h.2, isDigit_of_mem_zeros zeros⟩⟩
  leading := leading_of_head _ (by rwa [List.head?_append_of_ne_nil _ h.1])
  fraction _ he := by
    cases he
    exact ⟨List.cons_ne_nil _ _, isDigit_of_mem_zeros 1⟩

theorem wellSpelled_split (hhead : run.head? ≠ some '0') (k : Nat) (hk : k + 1 < run.length) :
    WellSpelled ⟨false, run.take (k + 1), some (run.drop (k + 1)), none⟩ where
  whole := ⟨by simp [h.1], fun c hc => h.2 c (List.mem_of_mem_take hc)⟩
  leading := leading_of_head _ (by rwa [List.head?_take, if_neg k.succ_ne_zero])
  fraction _ he := by
    cases he
    exact ⟨by simpa using hk, fun c hc => h.2 c (List.mem_of_mem_drop hc)⟩

theorem wellSpelled_zeros_before (zeros : Nat) :
    WellSpelled ⟨false, ['0'], some (List.replicate zeros '0' ++ run), none⟩ := by
  refine wellSpelled_single '0' rfl _ _ ?_
  rintro _ he
  cases he
  exact ⟨List.append_ne_nil_of_right_ne_nil _ h.1,
    List.forall_mem_append.mpr ⟨isDigit_of_mem_zeros zeros, h.2⟩⟩

end Numeral

open Numeral in
theorem exists_numeral_decimalText (d : Number.Decimal) (hd : 0 < d.digits ∨ d.magnitude < -6) :
    ∃ n : Numeral, n.WellSpelled ∧ n.body = decimalText d ∧ n.whole.length ≤ 13 ∧
      n.exponent.getD 0 ≤ max 0 d.magnitude := by
  have hdigits := digits_decimalDigits d.digits
  have hhead := head?_decimalDigits d.digits
  have hmagnitude : d.magnitude = d.exponent + (decimalDigits d.digits).length - 1 := rfl
  rw [decimalText]
  dsimp only
  rw [← hmagnitude]
  generalize d.magnitude = magnitude at hd hmagnitude ⊢
  generalize decimalDigits d.digits = run at hdigits hhead hmagnitude ⊢
  split
  · have hpos := hd.resolve_right (by omega)
    split
    · refine ⟨_, wellSpelled_zeros_behind run hdigits (hhead hpos) d.exponent.toNat, ?_, ?_, ?_⟩
      · simp [body, fractionText, exponentText]
      · simp only [List.length_append, List.length_replicate]
        omega
      · exact le_max_left 0 magnitude
    split
    · refine ⟨_, wellSpelled_split run hdigits (hhead hpos) magnitude.toNat (by omega), ?_, ?_, ?_⟩
      · simp [body, fractionText, exponentText]
      · simp only [List.length_take]
        omega
      · exact le_max_left 0 magnitude
    · refine ⟨_, wellSpelled_zeros_before run hdigits (-magnitude - 1).toNat, ?_, ?_, ?_⟩
      · simp [body, fractionText, exponentText]
      · exact Nat.le_of_ble_eq_true rfl
      · exact le_max_left 0 magnitude
  · obtain ⟨c, cs, rfl, _⟩ := hdigits.exists_cons
    refine ⟨_, wellSpelled_exponent c cs hdigits magnitude, ?_, ?_, ?_⟩
    · cases cs <;> rfl
    · exact Nat.le_of_ble_eq_true rfl
    · exact le_max_right 0 magnitude

theorem quantity_of_numeral (text : List Char) (n : Numeral)
    (hn : numeral .endOfText text = .ok (n, []))
    (hsize : n.whole.length + n.exponent.getD 0 ≤ 60) : ∃ q, quantity text = .ok (q, []) := by
  obtain ⟨q, hq⟩ := n.exists_quantity? hsize
  refine ⟨q, ?_⟩
  rw [quantity, hn, ok_bind]
  simp only [hq]

theorem parts_of_isFinite (x : Float32) (h : x.isFinite = true) :
    ∃ negative significand exponent, Number.parts x = .finite negative significand exponent ∧
      significand < 2 ^ 24 ∧ exponent ≤ 104 := by
  have hfinite : x.toModel.unpack.isFinite = true := h
  have hparts := Number.parts_eq x
  cases hu : x.toModel.unpack with
  | notANumber =>
    rw [hu] at hfinite
    cases hfinite
  | infinity s =>
    rw [hu] at hfinite
    cases hfinite
  | zero s =>
    rw [hu] at hparts
    exact ⟨_, _, _, hparts, by decide, by decide⟩
  | finite s m e hm =>
    obtain ⟨hlt, hle, _⟩ := Number.ranges_of_unpack x s m e hm hu
    rw [hu] at hparts
    exact ⟨_, _, _, hparts, hlt, hle⟩

open Numeral in
theorem exists_numeral_unsigned (significand : Nat) (exponent : Int) (hlt : significand < 2 ^ 24)
    (hle : exponent ≤ 104) :
    ∃ n : Numeral, n.WellSpelled ∧
      n.body = (if significand = 0 then ['0', '.', '0']
        else decimalText (Number.shortest significand exponent)) ∧
      n.whole.length + n.exponent.getD 0 ≤ 60 := by
  split
  · refine ⟨⟨false, ['0'], some ['0'], none⟩, wellSpelled_single '0' rfl _ _ ?_, rfl, by decide⟩
    rintro _ he
    cases he
    exact digits_decimalDigits 0
  · next hne =>
    obtain ⟨hd, hmagnitude⟩ :=
      Number.shortest_bounds significand exponent (Nat.pos_of_ne_zero hne) hlt hle
    obtain ⟨n, hn, hbody, hwhole, hexponent⟩ := exists_numeral_decimalText _ hd
    exact ⟨n, hn, hbody, by omega⟩

/-- The text of a finite number is a number that can be read. -/
theorem quantity_singleText (x : Float32) (h : x.isFinite = true) :
    ∃ q, quantity (singleText x) = .ok (q, []) := by
  obtain ⟨negative, significand, exponent, hparts, hlt, hle⟩ := parts_of_isFinite x h
  obtain ⟨n, hn, hbody, hsize⟩ := exists_numeral_unsigned significand exponent hlt hle
  have htext : singleText x = (if negative then ['-'] else []) ++ n.body := by
    rw [singleText, hparts, hbody]
  rw [htext]
  exact quantity_of_numeral _ _ (n.numeral_body hn .endOfText negative) hsize

theorem singleText_of_not_isFinite (x : Float32) (h : x.isFinite = false) :
    singleText x = nullText := by
  have hfinite : x.toModel.unpack.isFinite = false := h
  rw [singleText, Number.parts_eq]
  cases hu : x.toModel.unpack with
  | notANumber => rfl
  | infinity s => rfl
  | zero s =>
    rw [hu] at hfinite
    cases hfinite
  | finite s m e hm =>
    rw [hu] at hfinite
    cases hfinite

end CodeAtlas.Json
