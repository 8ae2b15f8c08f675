import Mathlib.Data.Finset.Card
import CodeAtlas.Graph.Style
import CodeAtlas.Proofs.OrderedMap

namespace CodeAtlas

theorem Color.category_eq (n : Nat) : categories[n % 10]? = some (category n) := by
  have hall : ∀ i < 10, categories[i]? = some (categories.getD i folderFill) := by decide
  exact hall (n % 10) (Nat.mod_lt n (by decide))

theorem Color.category_inj (m n : Nat) : category m = category n ↔ m % 10 = n % 10 := by
  have hnodup : categories.Nodup := by decide
  constructor
  · intro h
    have hm := category_eq m
    rw [h, ← category_eq n] at hm
    exact (List.getElem?_inj (Nat.mod_lt m (by decide)) hnodup).mp hm
  · intro h
    have hm := category_eq m
    rw [h, category_eq n] at hm
    exact (Option.some.inj hm).symm

namespace Palette

def after (keys : List String) : Palette :=
  keys.foldl assign empty

/-- How many other keys came before a key first did. -/
def rank (keys : List String) (key : String) : Nat :=
  (keys.take (keys.idxOf key)).toFinset.card

@[simp] theorem after_concat (keys : List String) (key : String) :
    after (keys ++ [key]) = (after keys).assign key := by
  rw [after, List.foldl_append]
  rfl

theorem rank_append (keys more : List String) (key : String) (h : key ∈ keys) :
    rank (keys ++ more) key = rank keys key := by
  have hlt := List.idxOf_lt_length_of_mem h
  rw [rank, rank, List.idxOf_append_of_mem h, List.take_append_of_le_length hlt.le]

theorem rank_concat (keys : List String) (key : String) (h : key ∉ keys) :
    rank (keys ++ [key]) key = keys.toFinset.card := by
  rw [rank, List.idxOf_append_of_notMem h, List.idxOf_cons_self, Nat.add_zero, List.take_left]

theorem colorFor_cases (p : Palette) (key : String) :
    (∃ color, p.get? key = some color ∧ p.colorFor key = (color, p)) ∨
      p.get? key = none ∧ p.colorFor key =
        (Color.category p.size, ⟨p.colors.insert key (Color.category p.size)⟩) := by
  rw [colorFor]
  cases h : p.get? key with
  | some color => exact Or.inl ⟨color, rfl, rfl⟩
  | none => exact Or.inr ⟨rfl, rfl⟩

theorem get?_assign (p : Palette) (key k : String) :
    (p.assign key).get? k =
      if k = key ∧ p.get? key = none then some (Color.category p.size) else p.get? k := by
  rw [assign]
  obtain ⟨color, hget, he⟩ | ⟨hnone, he⟩ := colorFor_cases p key
  · rw [he, hget]
    simp
  · rw [he, hnone]
    simp only [and_true]
    exact OrderedMap.get?_insert ..

theorem keys_assign (p : Palette) (key : String) :
    (p.assign key).colors.keys =
      if key ∈ p.colors.keys then p.colors.keys else p.colors.keys ++ [key] := by
  rw [assign]
  obtain ⟨color, hget, he⟩ | ⟨_, he⟩ := colorFor_cases p key
  · rw [he, if_pos ((OrderedMap.mem_keys_iff _ _).mpr ⟨color, hget⟩)]
  · rw [he]
    exact OrderedMap.keys_insert ..

theorem get?_colorFor (p : Palette) (key : String) :
    (p.assign key).get? key = some (p.colorFor key).1 := by
  rw [get?_assign]
  obtain ⟨color, hget, he⟩ | ⟨hnone, he⟩ := colorFor_cases p key
  · rw [he, hget]
    simp
  · rw [he, hnone]
    simp

@[simp] theorem keys_after (keys : List String) :
    (after keys).colors.keys = firstOccurrences keys := by
  induction keys using List.reverseRecOn with
  | nil => rfl
  | append_singleton keys key ih =>
    rw [after_concat, keys_assign, ih, firstOccurrences_concat]

@[simp] theorem size_after (keys : List String) : (after keys).size = keys.toFinset.card := by
  have hsize : (after keys).size = (after keys).colors.keys.length := (List.length_map _).symm
  rw [hsize, keys_after, ← List.toFinset_card_of_nodup (nodup_firstOccurrences keys)]
  congr 1
  ext key
  rw [List.mem_toFinset, List.mem_toFinset, mem_firstOccurrences]

theorem get?_after (keys : List String) (key : String) :
    (after keys).get? key = if key ∈ keys then some (Color.category (rank keys key)) else none := by
  induction keys using List.reverseRecOn with
  | nil => rfl
  | append_singleton keys last ih =>
    rw [after_concat, get?_assign]
    by_cases hkey : key ∈ keys
    · have hget : (after keys).get? key = some (Color.category (rank keys key)) := by
        rw [ih, if_pos hkey]
      have hold : ¬ (key = last ∧ (after keys).get? last = none) := by
        rintro ⟨rfl, hnone⟩
        rw [hget] at hnone
        cases hnone
      rw [if_neg hold, hget, if_pos (List.mem_append_left _ hkey), rank_append keys _ key hkey]
    · rw [if_neg hkey] at ih
      by_cases hlast : key = last
      · subst hlast
        rw [if_pos ⟨rfl, ih⟩, if_pos (by simp), rank_concat keys key hkey, size_after]
      · rw [if_neg (fun h => hlast h.1), ih, if_neg (by simp [hkey, hlast])]

theorem colorFor_after (keys : List String) (key : String) :
    ((after keys).colorFor key).1 = Color.category (rank (keys ++ [key]) key) := by
  have h := get?_colorFor (after keys) key
  rw [← after_concat, get?_after, if_pos (by simp)] at h
  exact (Option.some.inj h).symm

def functionKeys (nodes : List Node) : List String :=
  (nodes.filter (·.kind == .function)).map keyOf

theorem ofNodes_eq_after (nodes : List Node) : ofNodes nodes = after (functionKeys nodes) := rfl

theorem keyOf_mem (nodes : List Node) (n : Node) (h : n ∈ nodes) (hk : n.kind = .function) :
    keyOf n ∈ functionKeys nodes :=
  List.mem_map_of_mem (List.mem_filter.mpr ⟨h, by simp [hk]⟩)

theorem get?_ofNodes (nodes : List Node) (n : Node) (h : n ∈ nodes) (hk : n.kind = .function) :
    (ofNodes nodes).get? (keyOf n) =
      some (Color.category (rank (functionKeys nodes) (keyOf n))) := by
  rw [ofNodes_eq_after, get?_after, if_pos (keyOf_mem nodes n h hk)]

theorem fill_ofNodes (nodes : List Node) (n : Node) (h : n ∈ nodes) (hk : n.kind = .function)
    (selected : Bool) :
    (n.style (ofNodes nodes) selected).fill =
      Color.category (rank (functionKeys nodes) (keyOf n)) := by
  rw [Node.style, get?_ofNodes nodes n h hk, hk]
  rfl

/-- Every new key takes the next of the ten categories, from the first one again after the last, and
keeps it. So each function among some nodes has the color of its key, never one that stands in for a
missing color, and two functions look alike exactly if the ranks of their keys are equal modulo
ten. -/
theorem colors_by_rank :
    (∀ before key later, ∃ color,
      ((after before).colorFor key).1 = color ∧
      Color.categories[rank (before ++ key :: later) key % 10]? = some color ∧
      (after (before ++ key :: later)).get? key = some color ∧
      ((after (before ++ key :: later)).colorFor key).1 = color) ∧
    ∀ nodes : List Node, ∀ n ∈ nodes, n.kind = .function →
      (∃ color, Color.categories[rank (functionKeys nodes) (keyOf n) % 10]? = some color ∧
        (ofNodes nodes).get? (keyOf n) = some color ∧
        ∀ selected, (n.style (ofNodes nodes) selected).fill = color) ∧
      ∀ m ∈ nodes, m.kind = .function → ∀ selected selected',
        ((n.style (ofNodes nodes) selected).fill = (m.style (ofNodes nodes) selected').fill ↔
          rank (functionKeys nodes) (keyOf n) % 10 = rank (functionKeys nodes) (keyOf m) % 10) := by
  constructor
  · intro before key later
    have hlater : rank (before ++ key :: later) key = rank (before ++ [key]) key := by
      rw [← rank_append (before ++ [key]) later key (by simp), List.append_assoc]
      rfl
    have hagain : rank (before ++ key :: later ++ [key]) key = rank (before ++ [key]) key := by
      rw [rank_append _ [key] key (by simp), hlater]
    refine ⟨_, rfl, ?_, ?_, ?_⟩
    · rw [hlater, colorFor_after]
      exact Color.category_eq _
    · rw [get?_after, if_pos (by simp), hlater, colorFor_after]
    · rw [colorFor_after, hagain, colorFor_after]
  · intro nodes n hn hk
    refine ⟨⟨_, Color.category_eq _, get?_ofNodes nodes n hn hk, fill_ofNodes nodes n hn hk⟩, ?_⟩
    intro m hm hkm selected selected'
    rw [fill_ofNodes nodes n hn hk, fill_ofNodes nodes m hm hkm]
    exact Color.category_inj _ _

def looseNode (name : String) : Node :=
  ⟨name, name, .function, 0, none⟩

/-- A folder, which takes no color, and eleven functions, of which one comes twice. -/
def looseNodes : List Node :=
  ⟨"a", "a", .folder, 0, none⟩ ::
    ["b", "c", "d", "e", "c", "f", "g", "h", "i", "j", "k", "l"].map looseNode

theorem colors_by_rank_loose :
    looseNode "b" ∈ looseNodes ∧ looseNode "l" ∈ looseNodes ∧
      rank (functionKeys looseNodes) "b" = 0 ∧ rank (functionKeys looseNodes) "l" = 10 ∧
      ((looseNode "b").style (ofNodes looseNodes) false).fill =
        ((looseNode "l").style (ofNodes looseNodes) true).fill := by
  have hb : looseNode "b" ∈ looseNodes := by decide
  have hl : looseNode "l" ∈ looseNodes := by decide
  have hfirst : rank (functionKeys looseNodes) "b" = 0 := by decide
  have hagain : rank (functionKeys looseNodes) "l" = 10 := by decide
  refine ⟨hb, hl, hfirst, hagain, ?_⟩
  apply ((colors_by_rank.2 looseNodes _ hb rfl).2 _ hl rfl false true).mpr
  exact (congrArg (· % 10) hfirst).trans (congrArg (· % 10) hagain).symm

end Palette

end CodeAtlas
