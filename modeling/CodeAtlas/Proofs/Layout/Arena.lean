import Mathlib
import CodeAtlas.Layout.Arena
import CodeAtlas.Proofs.Layout.Cells

namespace CodeAtlas.Quadtree

def entry : Quadtree → Entry
  | .empty => ⟨0, .zero, 0, .leaf []⟩
  | .leaf cell bodies => .ofCell cell (.leaf (bodies.map Body.index))
  | .branch cell a b c d => .ofCell cell (.branch ([a, b, c, d].filterMap slot?))

def entries (t : Quadtree) : List Entry :=
  t.subtrees.map entry

def quarter (atLeast : Float32 → Float32 → Bool) (mid : Point) (bodies : List Body) (q : Nat) :
    List Body :=
  bodies.filter fun b => quadrant atLeast mid b.position == q

/-- What grows from some bodies in a square, `levels` splits deep at most, where `atLeast` compares
coordinates. -/
inductive Grows (atLeast : Float32 → Float32 → Bool) (strength : Float32) :
    Nat → List Body → Point → Float32 → Nat → Quadtree → Nat → Prop where
  | empty (levels : Nat) (corner : Point) (size : Float32) (slot : Nat) :
      Grows atLeast strength levels [] corner size slot .empty slot
  | leaf {levels : Nat} {bodies : List Body} (corner : Point) (size : Float32) (slot : Nat)
      (hne : bodies ≠ []) (h : levels = 0 ∨ bodies.length = 1) :
      Grows atLeast strength levels bodies corner size slot
        (.leaf (summary strength bodies size slot) bodies) (slot + 1)
  | branch {levels : Nat} {bodies : List Body} {corner : Point} {size : Float32}
      {slot i j k next : Nat} {a b c d : Quadtree} (hne : bodies ≠ []) (h : bodies.length ≠ 1)
      (ha : Grows atLeast strength levels (quarter atLeast (middle corner size) bodies 0)
        (quarterCorner corner (middle corner size) 0) (size / 2) (slot + 1) a i)
      (hb : Grows atLeast strength levels (quarter atLeast (middle corner size) bodies 1)
        (quarterCorner corner (middle corner size) 1) (size / 2) i b j)
      (hc : Grows atLeast strength levels (quarter atLeast (middle corner size) bodies 2)
        (quarterCorner corner (middle corner size) 2) (size / 2) j c k)
      (hd : Grows atLeast strength levels (quarter atLeast (middle corner size) bodies 3)
        (quarterCorner corner (middle corner size) 3) (size / 2) k d next) :
      Grows atLeast strength (levels + 1) bodies corner size slot
        (.branch (summary strength bodies size slot) a b c d) next

theorem quarter_eq (atLeast : Float32 → Float32 → Bool) (mid : Point) (bodies : List Body) :
    let right := fun b : Body => atLeast b.position.x mid.x
    let high := fun b : Body => atLeast b.position.y mid.y
    quarter atLeast mid bodies 0 = bodies.filter (fun b => !right b && !high b) ∧
      quarter atLeast mid bodies 1 = bodies.filter (fun b => right b && !high b) ∧
      quarter atLeast mid bodies 2 = bodies.filter (fun b => !right b && high b) ∧
      quarter atLeast mid bodies 3 = bodies.filter (fun b => right b && high b) := by
  have htold : ∀ x y : Bool, ((x.toNat ||| y.toNat <<< 1) == 0) = (!x && !y) ∧
      ((x.toNat ||| y.toNat <<< 1) == 1) = (x && !y) ∧
      ((x.toNat ||| y.toNat <<< 1) == 2) = (!x && y) ∧
      ((x.toNat ||| y.toNat <<< 1) == 3) = (x && y) := by decide
  refine ⟨?_, ?_, ?_, ?_⟩
  · exact List.filter_congr fun b _ => (htold _ _).1
  · exact List.filter_congr fun b _ => (htold _ _).2.1
  · exact List.filter_congr fun b _ => (htold _ _).2.2.1
  · exact List.filter_congr fun b _ => (htold _ _).2.2.2

theorem quarter_perm (atLeast : Float32 → Float32 → Bool) (mid : Point) (bodies : List Body) :
    (quarter atLeast mid bodies 0 ++ quarter atLeast mid bodies 1 ++ quarter atLeast mid bodies 2 ++
      quarter atLeast mid bodies 3).Perm bodies := by
  obtain ⟨h0, h1, h2, h3⟩ := quarter_eq atLeast mid bodies
  rw [h0, h1, h2, h3]
  exact quarters_perm _ _ bodies

theorem grows_grow (strength : Float32) (levels : Nat) (bodies : List Body) (corner : Point)
    (size : Float32) (slot : Nat) :
    Grows (fun x y => decide (x ≥ y)) strength levels bodies corner size slot
      (grow strength levels bodies corner size slot).1
      (grow strength levels bodies corner size slot).2 := by
  fun_induction grow strength levels bodies corner size slot with
  | case1 => exact .empty _ _ _ _
  | case2 _ b => exact .leaf _ _ _ (List.cons_ne_nil b []) (Or.inr rfl)
  | case3 bodies _ _ _ hne => exact .leaf _ _ _ hne (Or.inl rfl)
  | case4 levels bodies corner size slot hne hone half mid right high a i ha b j hb c k hc d next hd
      iha ihb ihc ihd =>
    have hlen : bodies.length ≠ 1 := by
      intro hlen
      obtain ⟨b, rfl⟩ := List.length_eq_one_iff.mp hlen
      exact hone b rfl
    obtain ⟨h0, h1, h2, h3⟩ := quarter_eq (fun x y => decide (x ≥ y)) mid bodies
    rw [ha, ← h0] at iha
    rw [hb, ← h1] at ihb
    rw [hc, ← h2] at ihc
    rw [hd, ← h3] at ihd
    exact .branch hne hlen iha ihb ihc ihd

theorem exists_grows (atLeast : Float32 → Float32 → Bool) (strength : Float32) (levels : Nat)
    (bodies : List Body) (corner : Point) (size : Float32) (slot : Nat) :
    ∃ t next, Grows atLeast strength levels bodies corner size slot t next := by
  induction levels generalizing bodies corner size slot with
  | zero =>
    by_cases hne : bodies = []
    · exact hne ▸ ⟨_, _, .empty 0 corner size slot⟩
    · exact ⟨_, _, .leaf corner size slot hne (Or.inl rfl)⟩
  | succ levels ih =>
    by_cases hne : bodies = []
    · exact hne ▸ ⟨_, _, .empty _ corner size slot⟩
    by_cases hlen : bodies.length = 1
    · exact ⟨_, _, .leaf corner size slot hne (Or.inr hlen)⟩
    · obtain ⟨a, i, ha⟩ := ih _ _ _ _
      obtain ⟨b, j, hb⟩ := ih _ _ _ _
      obtain ⟨c, k, hc⟩ := ih _ _ _ _
      obtain ⟨d, next, hd⟩ := ih _ _ _ _
      exact ⟨_, _, .branch hne hlen ha hb hc hd⟩

section Grows

variable {atLeast : Float32 → Float32 → Bool} {strength size : Float32} {levels slot next : Nat}
  {bodies : List Body} {corner : Point} {t : Quadtree}

theorem Grows.grown (h : Grows atLeast strength levels bodies corner size slot t next) :
    Grown strength bodies slot t next := by
  induction h with
  | empty => exact .empty _
  | leaf _ size slot hne => exact .leaf size slot hne
  | branch hne _ _ _ _ _ iha ihb ihc ihd =>
    exact .branch _ hne (quarter_perm atLeast _ _) iha ihb ihc ihd

theorem Grown.next_eq (h : Grown strength bodies slot t next) : next = slot + t.entries.length := by
  rw [entries, List.length_map]
  exact h.numbered.1

theorem Grows.eq_empty (h : Grows atLeast strength levels [] corner size slot t next) :
    t = .empty := by
  cases h with
  | empty => rfl
  | leaf _ _ _ hne => exact absurd rfl hne
  | branch hne => exact absurd rfl hne

end Grows

theorem entries_branch (cell : Cell) (a b c d : Quadtree) :
    (Quadtree.branch cell a b c d).entries = (Quadtree.branch cell a b c d).entry ::
      (a.entries ++ b.entries ++ c.entries ++ d.entries) := by
  simp only [entries, subtrees, List.map_cons, List.map_append]

theorem slots_quarters (a b c d : Quadtree) :
    [a, b, c, d].filterMap slot? =
      a.slot?.toList ++ b.slot?.toList ++ c.slot?.toList ++ d.slot?.toList := by
  rw [List.filterMap_eq_flatMap_toList]
  simp

theorem patch_append (arena rest : List Entry) (e : Entry) (content : Content) :
    patch (arena ++ e :: rest) arena.length content =
      arena ++ { e with content := content } :: rest := by
  induction arena with
  | nil => rfl
  | cons a arena ih => exact congrArg (a :: ·) ih

theorem quarter_bodiesAt (atLeast : Float32 → Float32 → Bool) (mid : Point)
    (positions : List Point) (indices : List Nat) (q : Nat) :
    quarter atLeast mid (bodiesAt positions indices) q = bodiesAt positions
      (indices.filter fun i => quadrant atLeast mid (positions.getD i default) == q) := by
  rw [quarter, bodiesAt, List.filter_map]
  rfl

/-- Filling adds the cells of a tree behind what is in the arena, the root in the first new slot. -/
def FillsBy (atLeast : Float32 → Float32 → Bool) (strength : Float32) (positions : List Point)
    (levels : Nat) (bodies : List Body) (corner : Point) (size : Float32) (slot : Nat)
    (t : Quadtree) : Prop :=
  ∀ indices arena, bodiesAt positions indices = bodies → arena.length = slot → indices ≠ [] →
    fill atLeast strength positions levels indices corner size arena = (slot, arena ++ t.entries)

theorem addQuarter_eq (atLeast : Float32 → Float32 → Bool) (strength : Float32)
    (positions : List Point) (levels : Nat) (indices : List Nat) (corner : Point) (size : Float32)
    (children : List Nat) (arena : List Entry) (q slot next : Nat) (t : Quadtree)
    (h : Grows atLeast strength levels
      (quarter atLeast (middle corner size) (bodiesAt positions indices) q)
      (quarterCorner corner (middle corner size) q) (size / 2) slot t next)
    (hfill : FillsBy atLeast strength positions levels
      (quarter atLeast (middle corner size) (bodiesAt positions indices) q)
      (quarterCorner corner (middle corner size) q) (size / 2) slot t)
    (hslot : arena.length = slot) :
    addQuarter atLeast positions (fill atLeast strength positions levels) indices corner size
        (children, arena) q =
      (children ++ t.slot?.toList, arena ++ t.entries) := by
  rw [quarter_bodiesAt] at h hfill
  simp only [addQuarter]
  split
  · next hnil =>
    rw [hnil] at h
    rw [h.eq_empty]
    simp [slot?, cell?, entries, subtrees]
  · next hne =>
    have hroot : t.slot? = some slot := h.grown.slot?_root (List.map_eq_nil_iff.not.mpr hne)
    rw [hfill _ arena rfl hslot hne, hroot]
    rfl

@[simp] theorem map_index_bodiesAt (positions : List Point) (indices : List Nat) :
    (bodiesAt positions indices).map Body.index = indices := by
  rw [bodiesAt, List.map_map]
  exact List.map_id indices

theorem patch_reserve (strength : Float32) (positions : List Point) (indices : List Nat)
    (size : Float32) (arena rest : List Entry) (content : Content) :
    patch (reserve strength positions indices size arena ++ rest) arena.length content =
      arena ++ .ofCell (summary strength (bodiesAt positions indices) size arena.length) content ::
        rest := by
  rw [reserve, List.append_assoc, List.singleton_append, patch_append]
  rfl

theorem Grows.fillsBy {atLeast : Float32 → Float32 → Bool} {strength size : Float32}
    {levels slot next : Nat} {bodies : List Body} {corner : Point} {t : Quadtree}
    (h : Grows atLeast strength levels bodies corner size slot t next) (positions : List Point) :
    FillsBy atLeast strength positions levels bodies corner size slot t := by
  induction h with
  | empty =>
    intro indices arena hb _ hne
    exact absurd (List.map_eq_nil_iff.mp hb) hne
  | @leaf levels _ corner size _ hne h =>
    rintro indices arena rfl rfl -
    have hpatch := patch_reserve strength positions indices size arena [] (.leaf indices)
    rw [List.append_nil] at hpatch
    have hentries : (Quadtree.leaf (summary strength (bodiesAt positions indices) size arena.length)
        (bodiesAt positions indices)).entries = [.ofCell (summary strength
          (bodiesAt positions indices) size arena.length) (.leaf indices)] := by
      simp only [entries, subtrees, List.map_singleton, entry, map_index_bodiesAt]
    rw [hentries, ← hpatch]
    cases levels with
    | zero => rfl
    | succ levels =>
      have hlen : indices.length = 1 := by simpa [bodiesAt] using h
      exact if_pos hlen
  | @branch levels _ corner size _ i j k next a b c d hne h ha hb hc hd iha ihb ihc ihd =>
    rintro indices arena rfl rfl -
    have hlen : indices.length ≠ 1 := by simpa [bodiesAt] using h
    have hreserve : (reserve strength positions indices size arena).length = arena.length + 1 :=
      List.length_append
    rw [fill, if_neg hlen]
    simp only [List.foldl_cons, List.foldl_nil]
    rw [addQuarter_eq atLeast strength positions levels indices corner size _ _ 0 _ _ a ha iha
        hreserve,
      addQuarter_eq atLeast strength positions levels indices corner size _ _ 1 _ _ b hb ihb
        (by rw [List.length_append, hreserve, ha.grown.next_eq]),
      addQuarter_eq atLeast strength positions levels indices corner size _ _ 2 _ _ c hc ihc
        (by rw [List.length_append, List.length_append, hreserve, hb.grown.next_eq,
          ha.grown.next_eq]),
      addQuarter_eq atLeast strength positions levels indices corner size _ _ 3 _ _ d hd ihd
        (by rw [List.length_append, List.length_append, List.length_append, hreserve,
          hc.grown.next_eq, hb.grown.next_eq, ha.grown.next_eq])]
    simp only [List.append_assoc]
    rw [patch_reserve, entries_branch, entry, slots_quarters]
    simp only [List.append_assoc, List.nil_append]

@[simp] theorem bodiesAt_range (positions : List Point) :
    bodiesAt positions (List.range positions.length) = bodiesOf positions := by
  apply List.ext_getElem
  · simp [bodiesAt, bodiesOf]
  · intro i hi _
    have hi : i < positions.length := by simpa [bodiesAt] using hi
    simp [bodiesAt, bodiesOf, hi]

theorem Grows.fillAll_eq {atLeast : Float32 → Float32 → Bool} {strength size : Float32}
    {positions : List Point} {corner : Point} {t : Quadtree} {next : Nat}
    (h : Grows atLeast strength maxDepth (bodiesOf positions) corner size 0 t next)
    (hne : positions ≠ []) : fillAll atLeast strength positions corner size = t.entries := by
  have hrange : List.range positions.length ≠ [] := by simpa using hne
  rw [fillAll, h.fillsBy positions _ [] (bodiesAt_range positions) rfl hrange]
  rfl

theorem build_eq (strength : Float32) (positions : List Point) :
    build strength positions = (ofPoints strength positions).entries := by
  rw [build]
  split
  · next hnil =>
    rw [hnil]
    rfl
  · next hne =>
    rw [(grows_grow strength maxDepth (bodiesOf positions) _ _ 0).fillAll_eq hne]
    cases positions with
    | nil => exact absurd rfl hne
    | cons p ps => rfl

end CodeAtlas.Quadtree
