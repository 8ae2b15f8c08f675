import Mathlib.Data.List.Infix
import CodeAtlas.Text.LowerCase

namespace CodeAtlas.Text

theorem contains_iff (part text : List Char) : contains part text = true ↔ part <:+: text := by
  induction text with
  | nil => rw [contains, List.isEmpty_iff, List.infix_nil]
  | cons c text ih =>
    rw [contains, Bool.or_eq_true, List.isPrefixOf_iff_prefix, ih, List.infix_cons_iff]

/-- The small letters of `part` where it stands, between the reversed text `before` and the text
`after`. -/
def lowerWithin (before : List Char) : (part after : List Char) → List Char
  | [], _ => []
  | c :: part, after =>
    (if c = 'Σ' then [lowerSigma before (part ++ after)] else lowerChar c) ++
      lowerWithin (c :: before) part after

theorem lowerFrom_append (before part after : List Char) :
    lowerFrom before (part ++ after) =
      lowerWithin before part after ++ lowerFrom (part.reverse ++ before) after := by
  induction part generalizing before with
  | nil => rfl
  | cons c part ih =>
    rw [List.cons_append, lowerFrom, ih, lowerWithin, List.append_assoc, List.reverse_cons,
      List.append_assoc, List.singleton_append]

theorem lower_eq_lowerWithin (cs : List Char) : lower cs = lowerWithin [] cs [] := by
  have h := lowerFrom_append [] cs []
  rwa [lowerFrom, List.append_nil, List.append_nil] at h

/-- A sigma between the reversed text `before` and the text `after` is the last letter of a word of
more than one letter. -/
def EndsWord (before after : List Char) : Prop :=
  meetsLetter before ∧ ¬ meetsLetter after

instance (before after : List Char) : Decidable (EndsWord before after) :=
  inferInstanceAs (Decidable (meetsLetter before ∧ ¬ meetsLetter after))

theorem lowerSigma_eq (before after : List Char) :
    lowerSigma before after = if EndsWord before after then 'ς' else 'σ' := by
  simp [lowerSigma, EndsWord]

theorem lowerSigma_eq_iff (before after before' after' : List Char) :
    lowerSigma before after = lowerSigma before' after' ↔
      (EndsWord before after ↔ EndsWord before' after') := by
  rw [lowerSigma_eq, lowerSigma_eq]
  by_cases h : EndsWord before after <;> by_cases h' : EndsWord before' after' <;> simp [h, h']

/-- Only a capital sigma is written by its neighbours, so only there can two places differ. -/
theorem lowerWithin_eq_iff (before before' part after after' : List Char) :
    lowerWithin before part after = lowerWithin before' part after' ↔
      ∀ u v, part = u ++ 'Σ' :: v →
        lowerSigma (u.reverse ++ before) (v ++ after) =
          lowerSigma (u.reverse ++ before') (v ++ after') := by
  induction part generalizing before before' with
  | nil => simp [lowerWithin]
  | cons c part ih =>
    rw [lowerWithin, lowerWithin]
    by_cases hc : c = 'Σ'
    · rw [if_pos hc, if_pos hc, List.singleton_append, List.singleton_append, List.cons.injEq, ih]
      constructor
      · rintro ⟨hfirst, hrest⟩ u v huv
        obtain ⟨rfl, hv⟩ | ⟨u', rfl, hu⟩ := List.cons_eq_append_iff.mp huv
        · obtain rfl := (List.cons.inj hv).2
          exact hfirst
        · simpa using hrest u' v hu
      · intro h
        refine ⟨by simpa using h [] part (by rw [hc]; rfl), ?_⟩
        intro u v hu
        simpa using h (c :: u) v (by rw [hu]; rfl)
    · rw [if_neg hc, if_neg hc, List.append_cancel_left_eq, ih]
      constructor
      · intro hrest u v huv
        obtain ⟨rfl, hv⟩ | ⟨u', rfl, hu⟩ := List.cons_eq_append_iff.mp huv
        · exact absurd (List.cons.inj hv).1.symm hc
        · simpa using hrest u' v hu
      · intro h u v hu
        simpa using h (c :: u) v (by rw [hu]; rfl)

/-- Every capital sigma of `part` ends a word where it stands, between `before` and `after`, exactly
if it ends one in `part` alone. -/
def KeepsSigmas (before part after : List Char) : Prop :=
  ∀ u v, part = u ++ 'Σ' :: v →
    (EndsWord (u.reverse ++ before.reverse) (v ++ after) ↔ EndsWord u.reverse v)

theorem keepsSigmas_iff (before part after : List Char) :
    KeepsSigmas before part after ↔ lowerWithin before.reverse part after = lower part := by
  rw [lower_eq_lowerWithin, lowerWithin_eq_iff]
  simp only [KeepsSigmas, lowerSigma_eq_iff, List.append_nil]

theorem keepsSigmas_of_notMem (before part after : List Char) (h : 'Σ' ∉ part) :
    KeepsSigmas before part after := by
  rintro u v rfl
  exact absurd (List.mem_append_right u List.mem_cons_self) h

/-- A part of a text is found in it, if no sigma of it looks different there. -/
theorem containsIgnoringCase_of_part (part text : String) (before after : List Char)
    (ht : text.toList = before ++ part.toList ++ after)
    (hs : KeepsSigmas before part.toList after) : containsIgnoringCase part text = true := by
  have hplace := (keepsSigmas_iff before part.toList after).mp hs
  have hlower : lower text.toList =
      lowerWithin [] before (part.toList ++ after) ++ lower part.toList ++
        lowerFrom (part.toList.reverse ++ before.reverse) after := by
    rw [ht, List.append_assoc, lower, lowerFrom_append, List.append_nil, lowerFrom_append, hplace,
      List.append_assoc]
  rw [containsIgnoringCase, contains_iff, hlower]
  exact List.infix_append _ _ _

end CodeAtlas.Text
