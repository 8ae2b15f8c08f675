import Mathlib.Data.List.Induction
import Mathlib.Data.List.TakeWhile
import CodeAtlas.Codebase.Path

namespace CodeAtlas.Path

theorem split_eq_splitOn (cs : List Char) : split cs = cs.splitOn '/' := by
  induction cs with
  | nil => rw [List.splitOn_nil, split]
  | cons c cs ih =>
    rw [List.splitOn_cons_eq_if_modifyHead, ← ih, split]
    by_cases hc : c = '/'
    · simp [hc]
    · cases hs : split cs with
      | nil => exact absurd (ih.symm.trans hs) (List.splitOn_ne_nil '/' cs)
      | cons s ss => simp [hc]

@[simp] theorem toList_join (p s : String) : (join p s).toList = p.toList ++ '/' :: s.toList := by
  simp [join]

theorem join_assoc (p q s : String) : join (join p q) s = join p (join q s) := by
  simp only [join, String.append_assoc]

theorem slash_mem_join (p s : String) : '/' ∈ (join p s).toList := by
  simp

@[simp] theorem segments_join (p s : String) : segments (join p s) = segments p ++ segments s := by
  simp only [segments, toList_join, split_eq_splitOn, List.splitOn_append_cons_self,
    List.map_append]

theorem segments_of_notMem (r : String) (hr : '/' ∉ r.toList) : segments r = [r] := by
  simp [segments, split_eq_splitOn, List.splitOn_eq_singleton hr]

theorem slash_notMem_split (cs s : List Char) (h : s ∈ split cs) : '/' ∉ s := by
  induction cs generalizing s with
  | nil => simp_all [split]
  | cons c cs ih =>
    rw [split] at h
    split at h
    · rcases List.mem_cons.mp h with rfl | h
      · exact List.not_mem_nil
      · exact ih s h
    · next hc =>
      cases hs : split cs with
      | nil => exact absurd ((split_eq_splitOn cs).symm.trans hs) (List.splitOn_ne_nil '/' cs)
      | cons t ts =>
        rw [hs] at h ih
        rcases List.mem_cons.mp h with rfl | h
        · simp [Ne.symm hc, ih t List.mem_cons_self]
        · exact ih s (List.mem_cons_of_mem t h)

theorem slash_notMem_segments (path s : String) (h : s ∈ segments path) : '/' ∉ s.toList := by
  obtain ⟨cs, hcs, rfl⟩ := List.mem_map.mp h
  rw [String.toList_ofList]
  exact slash_notMem_split path.toList cs hcs

theorem segments_ne_nil (path : String) : segments path ≠ [] := by
  simp [segments, split_eq_splitOn]

@[simp] theorem intercalate_segments (path : String) : "/".intercalate (segments path) = path := by
  apply String.toList_injective
  simp [segments, split_eq_splitOn, Function.comp_def]

/-- A path is a single segment, or a path with one more segment. -/
@[elab_as_elim]
theorem induction_on {motive : String → Prop} (path : String)
    (top : ∀ r, '/' ∉ r.toList → motive r)
    (below : ∀ p s, '/' ∉ s.toList → motive p → motive (join p s)) : motive path := by
  have h : ∀ l : List String, l ≠ [] → (∀ s ∈ l, '/' ∉ s.toList) → motive ("/".intercalate l) := by
    -- from the right, since a join adds a segment at the end
    intro l
    induction l using List.reverseRecOn with
    | nil => exact fun hl => absurd rfl hl
    | append_singleton l s ih =>
      intro _ hl
      have hs : '/' ∉ s.toList := hl s (by simp)
      cases l with
      | nil => simpa using top s hs
      | cons t ts =>
        rw [String.intercalate_append_of_ne_nil (List.cons_ne_nil t ts) (List.cons_ne_nil s []),
          String.intercalate_singleton]
        have ht : ∀ u ∈ t :: ts, '/' ∉ u.toList := fun u hu => hl u (List.mem_append_left [s] hu)
        exact below _ s hs (ih (List.cons_ne_nil t ts) ht)
  rw [← intercalate_segments path]
  exact h _ (segments_ne_nil path) (slash_notMem_segments path)

theorem join_inj (p q s t : String) (hs : '/' ∉ s.toList) (ht : '/' ∉ t.toList)
    (h : join p s = join q t) : p = q ∧ s = t := by
  have hl : segments p ++ [s] = segments q ++ [t] := by
    rw [← segments_of_notMem s hs, ← segments_of_notMem t ht, ← segments_join, ← segments_join, h]
  obtain ⟨hp, hst⟩ := List.append_inj' hl rfl
  refine ⟨?_, by simpa using hst⟩
  rw [← intercalate_segments p, hp, intercalate_segments]

theorem root_of_notMem (r : String) (hr : '/' ∉ r.toList) : root r = r := by
  have ht : r.toList.takeWhile (· ≠ '/') = r.toList := by
    apply List.takeWhile_eq_self_iff.mpr
    intro c hc
    simpa using fun he : c = '/' => hr (he ▸ hc)
  rw [root, ht, String.ofList_toList]

@[simp] theorem root_join (p s : String) : root (join p s) = root p := by
  rw [root, root, toList_join]
  congr 1
  induction p.toList with
  | nil => simp
  | cons c cs ih =>
    rw [List.cons_append, List.takeWhile_cons, List.takeWhile_cons, ih]

theorem head?_segments (path : String) : (segments path).head? = some (root path) := by
  induction path using induction_on with
  | top r hr => rw [segments_of_notMem r hr, root_of_notMem r hr]; rfl
  | below p s _ ih => rw [segments_join, root_join, List.head?_append, ih]; rfl

theorem slash_notMem_root (path : String) : '/' ∉ (root path).toList := by
  intro h
  rw [root, String.toList_ofList] at h
  simpa using List.mem_takeWhile_imp h

theorem trailFrom_concat (folder : String) (ss : List String) (s : String) :
    trailFrom folder (ss ++ [s]) = trailFrom folder ss ++
      [("/".intercalate (folder :: ss ++ [s]), s)] := by
  induction ss generalizing folder with
  | nil => simp [trailFrom, join]
  | cons t ss ih =>
    simp only [List.cons_append, trailFrom, ih, join, String.intercalate_cons_append,
      String.intercalate_cons_cons, String.append_assoc]

theorem trail_of_notMem (r : String) (hr : '/' ∉ r.toList) : trail r = [(r, r)] := by
  rw [trail, segments_of_notMem r hr]
  rfl

theorem trail_join (p s : String) (hs : '/' ∉ s.toList) :
    trail (join p s) = trail p ++ [(join p s, s)] := by
  have hp : "/".intercalate (segments p ++ [s]) = join p s := by
    rw [String.intercalate_append_of_ne_nil (segments_ne_nil p) (List.cons_ne_nil s []),
      intercalate_segments, String.intercalate_singleton]
    rfl
  rw [trail, trail, segments_join, segments_of_notMem s hs]
  cases hl : segments p with
  | nil => exact absurd hl (segments_ne_nil p)
  | cons t ts =>
    rw [hl] at hp
    simp only [List.cons_append, trailFrom_concat] at hp ⊢
    rw [hp]

def slashes (s : String) : Nat :=
  s.toList.count '/'

def stem (path : String) (i : Nat) : String :=
  "/".intercalate ((segments path).take (i + 1))

/-- The path itself, or what stands before one of its slashes. -/
def AtOrAbove (p path : String) : Prop :=
  p = path ∨ ∃ rest, path = join p rest

theorem slashes_of_notMem (s : String) (hs : '/' ∉ s.toList) : slashes s = 0 :=
  List.count_eq_zero_of_not_mem hs

@[simp] theorem slashes_join (p s : String) : slashes (join p s) = slashes p + slashes s + 1 := by
  rw [slashes, toList_join, List.count_append, List.count_cons_self]
  rfl

theorem slashes_join_of_notMem (p s : String) (hs : '/' ∉ s.toList) :
    slashes (join p s) = slashes p + 1 := by
  rw [slashes_join, slashes_of_notMem s hs]

theorem length_segments (path : String) : (segments path).length = slashes path + 1 := by
  induction path using induction_on with
  | top r hr => rw [segments_of_notMem r hr, slashes_of_notMem r hr, List.length_singleton]
  | below p s hs ih =>
    rw [segments_join, segments_of_notMem s hs, List.length_append, ih,
      slashes_join_of_notMem p s hs, List.length_singleton]

@[simp] theorem stem_slashes (path : String) : stem path (slashes path) = path := by
  rw [stem, ← length_segments, List.take_length, intercalate_segments]

theorem stem_join_of_le (p s : String) (i : Nat) (hi : i ≤ slashes p) :
    stem (join p s) i = stem p i := by
  have hl := length_segments p
  rw [stem, stem, segments_join, List.take_append_of_le_length (by omega)]

theorem stem_of_notMem (r : String) (hr : '/' ∉ r.toList) : stem r 0 = r := by
  have h := stem_slashes r
  rwa [slashes_of_notMem r hr] at h

theorem stem_join_self (p s : String) (hs : '/' ∉ s.toList) :
    stem (join p s) (slashes p + 1) = join p s := by
  rw [← slashes_join_of_notMem p s hs, stem_slashes]

def stems (path : String) : List String :=
  (List.range (segments path).length).map (stem path)

theorem stems_of_notMem (r : String) (hr : '/' ∉ r.toList) : stems r = [r] := by
  simp [stems, segments_of_notMem r hr, stem_of_notMem r hr]

theorem stems_join (p s : String) (hs : '/' ∉ s.toList) :
    stems (join p s) = stems p ++ [join p s] := by
  have hm : (List.range (slashes p + 1)).map (stem (join p s)) =
      (List.range (slashes p + 1)).map (stem p) := by
    apply List.map_congr_left
    intro i hi
    exact stem_join_of_le p s i (Nat.le_of_lt_succ (List.mem_range.mp hi))
  rw [stems, stems, length_segments, length_segments, slashes_join_of_notMem p s hs,
    List.range_succ, List.map_append, hm, List.map_singleton, stem_join_self p s hs]

theorem atOrAbove_of_notMem (p r : String) (hr : '/' ∉ r.toList) : AtOrAbove p r ↔ p = r := by
  refine ⟨?_, Or.inl⟩
  rintro (h | ⟨rest, rfl⟩)
  · exact h
  · exact absurd (slash_mem_join p rest) hr

theorem atOrAbove_join (p q s : String) (hs : '/' ∉ s.toList) :
    AtOrAbove p (join q s) ↔ AtOrAbove p q ∨ p = join q s := by
  constructor
  · rintro (h | ⟨rest, h⟩)
    · exact Or.inr h
    · left
      induction rest using induction_on with
      | top r hr => exact Or.inl (join_inj q p s r hs hr h).1.symm
      | below r t ht _ =>
        rw [← join_assoc] at h
        exact Or.inr ⟨r, (join_inj q (join p r) s t hs ht h).1⟩
  · rintro ((rfl | ⟨rest, rfl⟩) | h)
    · exact Or.inr ⟨s, rfl⟩
    · exact Or.inr ⟨join rest s, join_assoc p rest s⟩
    · exact Or.inl h

theorem mem_stems_iff (p path : String) : p ∈ stems path ↔ AtOrAbove p path := by
  induction path using induction_on with
  | top r hr => rw [stems_of_notMem r hr, List.mem_singleton, atOrAbove_of_notMem p r hr]
  | below q s hs ih =>
    rw [stems_join q s hs, List.mem_append, List.mem_singleton, ih, atOrAbove_join p q s hs]

theorem root_of_atOrAbove (p path : String) (h : AtOrAbove p path) : root p = root path := by
  rcases h with rfl | ⟨rest, rfl⟩
  · rfl
  · rw [root_join]

theorem filter_stems (path : String) :
    (stems path).filter (fun p => '/' ∉ p.toList) = [root path] := by
  induction path using induction_on with
  | top r hr => simp [stems_of_notMem r hr, root_of_notMem r hr, hr]
  | below p s hs ih =>
    rw [stems_join p s hs, List.filter_append, ih, root_join]
    simp

def parent? (path : String) : Option String :=
  match (segments path).dropLast with
  | [] => none
  | s :: ss => some ("/".intercalate (s :: ss))

theorem parent?_of_notMem (r : String) (hr : '/' ∉ r.toList) : parent? r = none := by
  rw [parent?, segments_of_notMem r hr]
  rfl

theorem parent?_join (p s : String) (hs : '/' ∉ s.toList) : parent? (join p s) = some p := by
  rw [parent?, segments_join, segments_of_notMem s hs, List.dropLast_concat]
  cases hp : segments p with
  | nil => exact absurd hp (segments_ne_nil p)
  | cons t ts =>
    dsimp only
    rw [← hp, intercalate_segments]

end CodeAtlas.Path
