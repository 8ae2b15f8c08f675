import CodeAtlas.Proofs.Menu.Rows
import CodeAtlas.Proofs.Text.LowerCase

namespace CodeAtlas.Menu

open Text (KeepsSigmas)

theorem isVisible_filter (m : Menu) (query : String) (i : Nat) (item : Item)
    (hi : m.item? i = some item) :
    (m.filter query).isVisible i = Text.containsIgnoringCase query item.label := by
  have h := item?_apply m (.filter query) i
  rw [hi] at h
  rw [isVisible, show m.filter query = m.apply (.filter query) from rfl, h]
  rfl

/-- An item whose label has the query in it as it stands is visible, if every capital sigma of the
query ends a word there exactly if it does in the query alone. So without a capital sigma an item
stays visible while more and more of a part of its label is typed. -/
theorem filter_shows_part (c : Codebase) (ops : List Operation) (i : Nat) (item : Item)
    (hi : ((ofCodebase c).run ops).item? i = some item) :
    (∀ (query : String) (before after : List Char),
        item.label.toList = before ++ query.toList ++ after →
        KeepsSigmas before query.toList after →
        (((ofCodebase c).run ops).filter query).isVisible i = true) ∧
      ∀ query : String, query.toList <:+: item.label.toList → 'Σ' ∉ query.toList →
        ∀ typed : String, typed.toList <+: query.toList →
          (((ofCodebase c).run ops).filter typed).isVisible i = true := by
  have hpart : ∀ (query : String) (before after : List Char),
      item.label.toList = before ++ query.toList ++ after →
      KeepsSigmas before query.toList after →
      (((ofCodebase c).run ops).filter query).isVisible i = true := by
    intro query before after hl hs
    rw [isVisible_filter _ query i item hi]
    exact Text.containsIgnoringCase_of_part query item.label before after hl hs
  refine ⟨hpart, ?_⟩
  rintro query ⟨before, after, hl⟩ hs typed ⟨rest, hrest⟩
  apply hpart typed before (rest ++ after)
  · rw [← hl, ← hrest]
    simp only [List.append_assoc]
  · apply Text.keepsSigmas_of_notMem
    intro hm
    rw [← hrest] at hs
    exact hs (List.mem_append_left rest hm)

def greek : Codebase :=
  ⟨⟨[("ΟΔΟΣ", .empty), ("ΑΣΑ", ⟨[("Σ", ⟨none, []⟩)], by decide⟩)], by decide⟩⟩

theorem filter_shows_part_greek :
    ((ofCodebase greek).item? 0).map Item.label = some "ΟΔΟΣ" ∧
      ((ofCodebase greek).filter "ΔΟΣ").isVisible 0 = true ∧
      ((ofCodebase greek).filter "ΟΔ").isVisible 0 = true := by
  have hl : ((ofCodebase greek).item? 0).map Item.label = some "ΟΔΟΣ" := by decide +kernel
  obtain ⟨item, hi, hlabel⟩ := Option.map_eq_some_iff.mp hl
  obtain ⟨hpart, htyped⟩ := filter_shows_part greek [] 0 item hi
  have hs : KeepsSigmas "Ο".toList "ΔΟΣ".toList [] :=
    (Text.keepsSigmas_iff _ _ _).mpr (by decide +kernel)
  refine ⟨hl, hpart "ΔΟΣ" "Ο".toList [] ?_ hs, ?_⟩
  · rw [hlabel]
    decide
  · apply htyped "ΟΔΟ" _ (by decide) "ΟΔ" (by decide)
    rw [hlabel]
    decide

/-- The sigma of the query ends a word only until the next letter is typed, and so the item is
hidden and comes back, although its label begins with each of the three queries. -/
theorem filter_hides_part :
    ((ofCodebase greek).item? 1).map Item.label = some "ΑΣΑ" ∧
      ((ofCodebase greek).filter "Α").isVisible 1 = true ∧
      ((ofCodebase greek).filter "ΑΣ").isVisible 1 = false ∧
      ((ofCodebase greek).filter "ΑΣΑ").isVisible 1 = true ∧
      ¬ ∀ (c : Codebase) (i : Nat) (item : Item) (query : String),
        (ofCodebase c).item? i = some item → query.toList <:+: item.label.toList →
        ((ofCodebase c).filter query).isVisible i = true := by
  have hl : ((ofCodebase greek).item? 1).map Item.label = some "ΑΣΑ" := by decide +kernel
  have hv : ((ofCodebase greek).filter "ΑΣ").isVisible 1 = false := by decide +kernel
  refine ⟨hl, by decide +kernel, hv, by decide +kernel, ?_⟩
  intro h
  obtain ⟨item, hi, hlabel⟩ := Option.map_eq_some_iff.mp hl
  have hshown := h greek 1 item "ΑΣ" hi (by rw [hlabel]; decide)
  rw [hv] at hshown
  cases hshown

end CodeAtlas.Menu
