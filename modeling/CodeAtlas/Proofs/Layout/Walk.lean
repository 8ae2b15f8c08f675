import CodeAtlas.Proofs.Layout.Arena

namespace CodeAtlas.Quadtree

def Source.index? : Source → Option Nat
  | .far _ => none
  | .near body => some body.index

def accepted (theta2 : Float32) (origin : Point) (t : Quadtree) : Bool :=
  t.cell?.any (isFar theta2 origin)

/-- The cells to be looked at in place of one that is not far away, last quarter first. -/
def opened (theta2 : Float32) (origin : Point) : Quadtree → List Quadtree
  | .empty => []
  | .leaf _ _ => []
  | .branch cell a b c d => if isFar theta2 origin cell then [] else [d, c, b, a]

def yields (theta2 : Float32) (index : Nat) (origin : Point) : Quadtree → List Source
  | .empty => []
  | .leaf cell bodies =>
    if isFar theta2 origin cell then [.far cell]
    else (bodies.filter (·.index != index)).map .near
  | .branch cell _ _ _ _ => if isFar theta2 origin cell then [.far cell] else []

/-- The cells that are looked at, in order, each with all that lies inside it. -/
def visited (theta2 : Float32) (origin : Point) : Quadtree → List Quadtree
  | .empty => []
  | .leaf cell bodies => [.leaf cell bodies]
  | .branch cell a b c d =>
    .branch cell a b c d ::
      if isFar theta2 origin cell then []
      else visited theta2 origin d ++ visited theta2 origin c ++ visited theta2 origin b ++
        visited theta2 origin a

/-- The bodies that a visited cell settles: all of them if it is far away, those of a leaf else. -/
def settles (theta2 : Float32) (origin : Point) : Quadtree → List Body
  | .empty => []
  | .leaf _ bodies => bodies
  | .branch cell a b c d =>
    if isFar theta2 origin cell then (Quadtree.branch cell a b c d).bodies else []

def grouped (theta2 : Float32) (origin : Point) (t : Quadtree) : List Nat :=
  if accepted theta2 origin t then t.bodies.map Body.index else []

def single (theta2 : Float32) (index : Nat) (origin : Point) (t : Quadtree) : List Nat :=
  (yields theta2 index origin t).filterMap Source.index?

theorem quarters_reverse_perm {α : Type} (a b c d : List α) :
    (d ++ c ++ b ++ a).Perm (a ++ b ++ c ++ d) := by
  simpa using (List.reverse_perm [a, b, c, d]).flatten

section Visited

variable (theta2 : Float32) (index : Nat) (origin : Point)

theorem sources_eq (t : Quadtree) :
    sources theta2 index origin t =
      (visited theta2 origin t).flatMap (yields theta2 index origin) := by
  induction t with
  | empty => rfl
  | leaf cell bodies => simp [sources, visited, yields]
  | branch cell a b c d iha ihb ihc ihd =>
    simp only [sources, visited, List.flatMap_cons, yields]
    split
    · rfl
    · simp only [List.flatMap_append, iha, ihb, ihc, ihd, List.nil_append]

theorem visited_subperm (t : Quadtree) : (visited theta2 origin t).Subperm t.subtrees := by
  induction t with
  | empty => exact List.Subperm.refl []
  | leaf cell bodies => exact List.Subperm.refl _
  | branch cell a b c d iha ihb ihc ihd =>
    rw [visited, subtrees, List.subperm_cons]
    split
    · exact List.nil_subperm
    · exact (((ihd.append ihc).append ihb).append iha).trans (quarters_reverse_perm _ _ _ _).subperm

/-- The walk settles every body of the tree, and none of them twice, however the cells are
judged. -/
theorem settles_visited_perm (t : Quadtree) :
    ((visited theta2 origin t).flatMap (settles theta2 origin)).Perm t.bodies := by
  induction t with
  | empty => exact List.Perm.refl []
  | leaf cell bodies => simp [visited, settles, Quadtree.bodies]
  | branch cell a b c d iha ihb ihc ihd =>
    rw [visited, List.flatMap_cons, settles]
    split
    · simp
    · rw [List.flatMap_append, List.flatMap_append, List.flatMap_append, List.nil_append]
      exact (((ihd.append ihc).append ihb).append iha).trans (quarters_reverse_perm _ _ _ _)

theorem yields_of_accepted (t : Quadtree) (h : accepted theta2 origin t = true) :
    yields theta2 index origin t = t.cell?.toList.map .far ∧
      settles theta2 origin t = t.bodies := by
  cases t with
  | empty => exact ⟨rfl, rfl⟩
  | leaf cell bodies =>
    have hf : isFar theta2 origin cell = true := h
    exact ⟨if_pos hf, rfl⟩
  | branch cell a b c d =>
    have hf : isFar theta2 origin cell = true := h
    exact ⟨if_pos hf, if_pos hf⟩

theorem yields_of_not_accepted (t : Quadtree) (h : accepted theta2 origin t = false) :
    yields theta2 index origin t =
      ((settles theta2 origin t).filter (·.index != index)).map .near := by
  cases t with
  | empty => rfl
  | leaf cell bodies =>
    have hf : isFar theta2 origin cell = false := h
    simp [yields, settles, hf]
  | branch cell a b c d =>
    have hf : isFar theta2 origin cell = false := h
    simp [yields, settles, hf]

theorem single_of_accepted (t : Quadtree) (h : accepted theta2 origin t = true) :
    single theta2 index origin t = [] := by
  rw [single, (yields_of_accepted theta2 index origin t h).1, List.filterMap_map]
  exact List.filterMap_eq_nil_iff.mpr fun _ _ => rfl

theorem single_of_not_accepted (t : Quadtree) (h : accepted theta2 origin t = false) :
    single theta2 index origin t =
      ((settles theta2 origin t).map Body.index).filter (· != index) := by
  rw [single, yields_of_not_accepted theta2 index origin t h, List.filterMap_map, List.filter_map]
  exact congrFun List.filterMap_eq_map _

theorem notMem_single (t : Quadtree) : index ∉ single theta2 index origin t := by
  cases h : accepted theta2 origin t with
  | true => simp [single_of_accepted theta2 index origin t h]
  | false => simp [single_of_not_accepted theta2 index origin t h]

/-- A body other than `index` that a cell settles is added by itself or is one of a group. -/
theorem count_settles (t : Quadtree) (j : Nat) (hj : j ≠ index) :
    (single theta2 index origin t).count j + (grouped theta2 origin t).count j =
      ((settles theta2 origin t).map Body.index).count j := by
  cases h : accepted theta2 origin t with
  | true =>
    rw [single_of_accepted theta2 index origin t h, grouped, if_pos h,
      (yields_of_accepted theta2 index origin t h).2, List.count_nil, Nat.zero_add]
  | false =>
    have hno : grouped theta2 origin t = [] := by rw [grouped, h]; rfl
    rw [hno, single_of_not_accepted theta2 index origin t h, List.count_nil, Nat.add_zero,
      List.count_filter (by simpa using hj)]

theorem count_flatMap_settles (ts : List Quadtree) (j : Nat) (hj : j ≠ index) :
    (ts.flatMap (single theta2 index origin)).count j +
        (ts.flatMap (grouped theta2 origin)).count j =
      ((ts.flatMap (settles theta2 origin)).map Body.index).count j := by
  induction ts with
  | nil => rfl
  | cons t ts ih =>
    have ht := count_settles theta2 index origin t j hj
    simp only [List.flatMap_cons, List.map_append, List.count_append]
    omega

theorem count_visited (t : Quadtree) (j : Nat) (hj : j ≠ index) :
    ((visited theta2 origin t).flatMap (single theta2 index origin)).count j +
        ((visited theta2 origin t).flatMap (grouped theta2 origin)).count j =
      (t.bodies.map Body.index).count j := by
  rw [count_flatMap_settles theta2 index origin _ j hj]
  exact ((settles_visited_perm theta2 origin t).map Body.index).count_eq j

/-- Where no cell is far away, the sources are the other bodies of the tree. -/
theorem sources_perm (t : Quadtree)
    (h : ∀ u ∈ visited theta2 origin t, accepted theta2 origin u = false) :
    (sources theta2 index origin t).Perm
      ((t.bodies.filter (·.index != index)).map .near) := by
  have hy : (visited theta2 origin t).flatMap (yields theta2 index origin) =
      (((visited theta2 origin t).flatMap (settles theta2 origin)).filter
        (·.index != index)).map .near := by
    rw [List.filter_flatMap, List.map_flatMap]
    apply List.flatMap_congr
    intro u hu
    exact yields_of_not_accepted theta2 index origin u (h u hu)
  rw [sources_eq, hy]
  exact ((settles_visited_perm theta2 origin t).filter _).map _

end Visited

theorem mapM_eq_some_map {α β : Type} (l : List α) (f? : α → Option β) (f : α → β)
    (h : ∀ a ∈ l, f? a = some (f a)) : l.mapM f? = some (l.map f) := by
  induction l with
  | nil => rfl
  | cons a l ih =>
    rw [List.mapM_cons, h a List.mem_cons_self, ih fun b hb => h b (List.mem_cons_of_mem a hb)]
    rfl

theorem mapM_near (positions : List Point) (bodies : List Body)
    (h : ∀ b ∈ bodies, positions[b.index]? = some b.position) :
    (bodies.map Body.index).mapM (fun j => positions[j]?.map fun p => Source.near ⟨j, p⟩) =
      some (bodies.map .near) := by
  rw [List.mapM_map]
  apply mapM_eq_some_map
  intro b hb
  rw [Function.comp_apply, h b hb]
  rfl

theorem cell_entry (t : Quadtree) (slot : Nat) (h : t.slot? = some slot) :
    t.cell? = some (t.entry.cell slot) := by
  cases t with
  | empty => cases h
  | leaf cell bodies =>
    cases h
    rfl
  | branch cell a b c d =>
    cases h
    rfl

theorem look?_entry (theta2 : Float32) (positions : List Point) (index : Nat) (origin : Point)
    (t : Quadtree) (slot : Nat) (hslot : t.slot? = some slot)
    (h : ∀ b ∈ t.bodies, positions[b.index]? = some b.position) :
    t.entry.look? theta2 positions index origin slot =
      some (yields theta2 index origin t, (opened theta2 origin t).filterMap slot?) := by
  have hcell := cell_entry t slot hslot
  cases t with
  | empty => cases hslot
  | leaf cell bodies =>
    rw [Entry.look?, ← Option.some.inj hcell, yields]
    split
    · rfl
    · have hfound := mapM_near positions (bodies.filter (·.index != index))
        fun b hb => h b (List.mem_of_mem_filter hb)
      have hread : (bodies.map Body.index).filter (· != index) =
          (bodies.filter (·.index != index)).map Body.index := List.filter_map
      simp only [entry, Entry.ofCell, hread, hfound]
      rfl
  | branch cell a b c d =>
    rw [Entry.look?, ← Option.some.inj hcell, yields, opened]
    split
    · rfl
    · have hquarters : [d, c, b, a] = [a, b, c, d].reverse := rfl
      simp only [entry, Entry.ofCell]
      rw [hquarters, List.filterMap_reverse]

/-- Every cell of a tree is found at its slot, and every body where its number says. -/
structure Stored (arena : List Entry) (positions : List Point) (t : Quadtree) : Prop where
  cell : ∀ u ∈ t.subtrees, ∃ k, u.slot? = some k ∧ arena[k]? = some u.entry
  body : ∀ b ∈ t.bodies, positions[b.index]? = some b.position

section Loop

variable (arena : List Entry) (theta2 : Float32) (positions : List Point) (index : Nat)
  (origin : Point)

theorem Stored.quarters (cell : Cell) (a b c d : Quadtree)
    (h : Stored arena positions (.branch cell a b c d)) :
    Stored arena positions a ∧ Stored arena positions b ∧ Stored arena positions c ∧
      Stored arena positions d := by
  have hc := h.cell
  have hb := h.body
  simp only [subtrees, bodies, List.mem_cons, List.mem_append] at hc hb
  exact ⟨⟨fun u hu => hc u (by simp [hu]), fun b hu => hb b (by simp [hu])⟩,
    ⟨fun u hu => hc u (by simp [hu]), fun b hu => hb b (by simp [hu])⟩,
    ⟨fun u hu => hc u (by simp [hu]), fun b hu => hb b (by simp [hu])⟩,
    ⟨fun u hu => hc u (by simp [hu]), fun b hu => hb b (by simp [hu])⟩⟩

theorem walk?_turn (t : Quadtree) (slot : Nat) (hs : t.slot? = some slot)
    (hslot : arena[slot]? = some t.entry) (h : Stored arena positions t) (turns : Nat)
    (stack : List Nat) :
    walk? arena theta2 positions index origin (turns + 1) (slot :: stack) =
      (walk? arena theta2 positions index origin turns
        ((opened theta2 origin t).filterMap slot? ++ stack)).map fun r =>
          (slot :: r.1, yields theta2 index origin t ++ r.2) := by
  rw [walk?, hslot, Option.bind_eq_bind, Option.bind_some,
    look?_entry theta2 positions index origin t slot hs h.body, Option.bind_eq_bind,
    Option.bind_some]
  dsimp only
  cases walk? arena theta2 positions index origin turns
    ((opened theta2 origin t).filterMap slot? ++ stack) <;> rfl

/-- From a stack with the tree on top, the loop visits the cells of the tree that `visited` names,
adds the sources of the tree, and goes on with the rest of the stack. -/
def WalksOver (t : Quadtree) : Prop :=
  ∀ turns stack,
    walk? arena theta2 positions index origin ((visited theta2 origin t).length + turns)
        (t.slot?.toList ++ stack) =
      (walk? arena theta2 positions index origin turns stack).map fun r =>
        ((visited theta2 origin t).filterMap slot? ++ r.1, sources theta2 index origin t ++ r.2)

theorem walk?_row (ts : List Quadtree)
    (h : ∀ t ∈ ts, WalksOver arena theta2 positions index origin t) (turns : Nat)
    (stack : List Nat) :
    walk? arena theta2 positions index origin
        ((ts.flatMap (visited theta2 origin)).length + turns) (ts.filterMap slot? ++ stack) =
      (walk? arena theta2 positions index origin turns stack).map fun r =>
        ((ts.flatMap (visited theta2 origin)).filterMap slot? ++ r.1,
          ts.flatMap (sources theta2 index origin) ++ r.2) := by
  induction ts with
  | nil => simp
  | cons t ts ih =>
    have htop : (t :: ts).filterMap slot? = t.slot?.toList ++ ts.filterMap slot? := by
      rw [List.filterMap_cons]
      cases t.slot? <;> rfl
    rw [htop, List.flatMap_cons, List.length_append, Nat.add_assoc, List.append_assoc,
      h t List.mem_cons_self, ih fun u hu => h u (List.mem_cons_of_mem t hu), Option.map_map]
    simp only [Function.comp_def, List.filterMap_append, List.flatMap_cons, List.append_assoc]

theorem walksOver_of_opened (t : Quadtree) (ht : t ∈ t.subtrees) (h : Stored arena positions t)
    (hv : visited theta2 origin t = t :: (opened theta2 origin t).flatMap (visited theta2 origin))
    (hin : ∀ u ∈ opened theta2 origin t, WalksOver arena theta2 positions index origin u) :
    WalksOver arena theta2 positions index origin t := by
  intro turns stack
  obtain ⟨slot, hs, hslot⟩ := h.cell t ht
  have hsources : sources theta2 index origin t = yields theta2 index origin t ++
      (opened theta2 origin t).flatMap (sources theta2 index origin) := by
    rw [sources_eq, hv, List.flatMap_cons, List.flatMap_assoc,
      funext (sources_eq theta2 index origin)]
  rw [hs, hsources, hv, List.length_cons, Nat.add_right_comm, Option.toList_some,
    List.singleton_append, walk?_turn arena theta2 positions index origin t slot hs hslot h,
    walk?_row arena theta2 positions index origin _ hin, Option.map_map, List.filterMap_cons, hs]
  simp only [Function.comp_def, List.cons_append, List.append_assoc]

/-- A cell takes one turn, and what is opened in its place stands on the stack in a row. -/
theorem walksOver (t : Quadtree) (h : Stored arena positions t) :
    WalksOver arena theta2 positions index origin t := by
  induction t with
  | empty =>
    intro turns stack
    simp [visited, slot?, cell?, sources]
  | leaf cell bodies =>
    apply walksOver_of_opened arena theta2 positions index origin _ List.mem_cons_self h
    · rfl
    · simp [opened]
  | branch cell a b c d iha ihb ihc ihd =>
    obtain ⟨ha, hb, hc, hd⟩ := h.quarters arena positions cell a b c d
    apply walksOver_of_opened arena theta2 positions index origin _ List.mem_cons_self h
    · rw [visited, opened]
      split <;> simp
    · intro u hu
      have hu : u = d ∨ u = c ∨ u = b ∨ u = a := by
        rw [opened] at hu
        split at hu
        · exact absurd hu List.not_mem_nil
        · simpa using hu
      rcases hu with rfl | rfl | rfl | rfl
      · exact ihd hd
      · exact ihc hc
      · exact ihb hb
      · exact iha ha

end Loop

@[simp] theorem indices_bodiesOf (positions : List Point) :
    (bodiesOf positions).map Body.index = List.range positions.length := by
  apply List.ext_getElem
  · simp [bodiesOf]
  · intro i _ _
    simp [bodiesOf]

theorem position_of_mem_bodiesOf (positions : List Point) (b : Body) (hb : b ∈ bodiesOf positions) :
    positions[b.index]? = some b.position := by
  obtain ⟨i, hi, rfl⟩ := List.mem_mapIdx.mp hb
  exact List.getElem?_eq_getElem hi

theorem stored_build (strength : Float32) (positions : List Point) :
    Stored (build strength positions) positions (ofPoints strength positions) := by
  obtain ⟨next, h⟩ := grown_ofPoints strength positions
  refine ⟨?_, ?_⟩
  · intro u hu
    obtain ⟨k, hk, hstored⟩ := h.stored u hu
    refine ⟨k, hk, ?_⟩
    rw [build_eq, entries, List.getElem?_map, hstored]
    rfl
  · intro b hb
    exact position_of_mem_bodiesOf positions b (h.bodies_perm.mem_iff.mp hb)

theorem nodup_slots_visited (strength theta2 : Float32) (positions : List Point) (origin : Point) :
    ((visited theta2 origin (ofPoints strength positions)).filterMap slot?).Nodup := by
  obtain ⟨next, h⟩ := grown_ofPoints strength positions
  obtain ⟨l, hp, hs⟩ := visited_subperm theta2 origin (ofPoints strength positions)
  have hn : ((ofPoints strength positions).subtrees.filterMap slot?).Nodup := by
    rw [h.numbered.2.filterMap_slot?]
    exact List.nodup_range'
  exact ((hp.filterMap slot?).nodup_iff).mp (hn.sublist (hs.filterMap slot?))

/-- The loop ends by itself, after one turn for each cell that is looked at. -/
theorem walk?_build (strength theta2 : Float32) (positions : List Point) (index : Nat)
    (origin : Point) (hne : positions ≠ []) :
    walk? (build strength positions) theta2 positions index origin
        (build strength positions).length [0] =
      some ((visited theta2 origin (ofPoints strength positions)).filterMap slot?,
        sources theta2 index origin (ofPoints strength positions)) := by
  obtain ⟨next, h⟩ := grown_ofPoints strength positions
  have hroot : (ofPoints strength positions).slot? = some 0 :=
    h.slot?_root (by simpa [bodiesOf] using hne)
  have hlength :
      (build strength positions).length = (ofPoints strength positions).subtrees.length := by
    rw [build_eq, entries, List.length_map]
  have hle := (visited_subperm theta2 origin (ofPoints strength positions)).length_le
  obtain ⟨spare, hspare⟩ := Nat.exists_eq_add_of_le hle
  have hw := walksOver _ theta2 positions index origin _ (stored_build strength positions) spare []
  rw [← hspare, ← hlength, hroot] at hw
  simpa [walk?] using hw

theorem count_bodies_ofPoints (strength : Float32) (positions : List Point) (j : Nat)
    (hj : j < positions.length) :
    ((ofPoints strength positions).bodies.map Body.index).count j = 1 := by
  obtain ⟨next, h⟩ := grown_ofPoints strength positions
  rw [(h.bodies_perm.map Body.index).count_eq, indices_bodiesOf]
  exact List.count_eq_one_of_mem List.nodup_range (List.mem_range.mpr hj)

def others (positions : List Point) (index : Nat) : List Body :=
  (bodiesOf positions).filter (·.index != index)

theorem length_others (positions : List Point) (index : Nat) (h : index < positions.length) :
    (others positions index).length + 1 = positions.length := by
  have hm : (others positions index).map Body.index =
      (List.range positions.length).erase index := by
    rw [List.nodup_range.erase_eq_filter, ← indices_bodiesOf, List.filter_map]
    rfl
  have hl := congrArg List.length hm
  rw [List.length_map, List.length_erase_of_mem (List.mem_range.mpr h), List.length_range] at hl
  omega

theorem map_slot?_visited (strength theta2 : Float32) (positions : List Point) (origin : Point) :
    (visited theta2 origin (ofPoints strength positions)).map slot? =
      ((visited theta2 origin (ofPoints strength positions)).filterMap slot?).map some := by
  rw [List.map_filterMap_some_eq_filter_map_isSome, eq_comm, List.filter_eq_self]
  intro s hs
  obtain ⟨t, ht, rfl⟩ := List.mem_map.mp hs
  have hin := (visited_subperm theta2 origin (ofPoints strength positions)).subset ht
  obtain ⟨k, hk, _⟩ := (stored_build strength positions).cell t hin
  rw [hk]
  rfl

theorem forceAt_of_getElem? (strength alpha theta2 : Float32) (salt : UInt64)
    (positions : List Point) (index : Nat) (origin : Point)
    (h : positions[index]? = some origin) :
    forceAt strength alpha theta2 salt positions index =
      .ok (forceOn strength alpha theta2 salt (ofPoints strength positions) index origin) := by
  cases positions with
  | nil => simp at h
  | cons p ps => simp only [forceAt, h]

/-- The force on a body is a sum of pulls, found by a loop that ends and looks at no cell twice,
whatever comes out of the comparisons on the way. Every other body counts once: it pulls by itself,
or it is one of those for which a cell that was accepted as far away pulls as a whole. -/
theorem forceAt_accounts_once (strength alpha theta2 : Float32) (salt : UInt64)
    (positions : List Point) (index : Nat) (origin : Point)
    (h : positions[index]? = some origin) :
    let tree := ofPoints strength positions
    let arena := build strength positions
    let seen := visited theta2 origin tree
    let found := sources theta2 index origin tree
    let terms := found.map (pullOf strength alpha salt index origin)
    (∃ slots : List Nat, seen.map slot? = slots.map some ∧ slots.Nodup ∧
        walk? arena theta2 positions index origin arena.length [0] = some (slots, found)) ∧
      forceAt strength alpha theta2 salt positions index = .ok (Point.sum terms) ∧
      found = seen.flatMap (yields theta2 index origin) ∧
      (∀ j < positions.length, j ≠ index →
        (seen.flatMap (single theta2 index origin)).count j +
          (seen.flatMap (grouped theta2 origin)).count j = 1) ∧
      index ∉ seen.flatMap (single theta2 index origin) ∧
      (∀ t ∈ seen, t.cell?.map Cell.weight = some (strength * Float32.ofNat t.bodies.length)) ∧
      ((∀ t ∈ seen, accepted theta2 origin t = false) →
        terms.Perm ((others positions index).map fun b =>
          pull (b.position - origin) strength alpha
            (salt ^^^ ((index.toUInt64 <<< 32) ||| b.index.toUInt64))) ∧
        terms.length + 1 = positions.length) := by
  intro tree arena seen found terms
  obtain ⟨next, hg⟩ := grown_ofPoints strength positions
  have hlt : index < positions.length := (List.getElem?_eq_some_iff.mp h).1
  have hne : positions ≠ [] := List.ne_nil_of_length_pos (Nat.zero_lt_of_lt hlt)
  refine ⟨⟨seen.filterMap slot?, ?_, ?_, ?_⟩, ?_, sources_eq theta2 index origin tree,
    ?_, ?_, ?_, ?_⟩
  · exact map_slot?_visited strength theta2 positions origin
  · exact nodup_slots_visited strength theta2 positions origin
  · exact walk?_build strength theta2 positions index origin hne
  · exact forceAt_of_getElem? strength alpha theta2 salt positions index origin h
  · intro j hj hji
    rw [count_visited theta2 index origin tree j hji]
    exact count_bodies_ofPoints strength positions j hj
  · intro hi
    obtain ⟨t, _, ht⟩ := List.mem_flatMap.mp hi
    exact notMem_single theta2 index origin t ht
  · intro t ht
    exact hg.weight t ((visited_subperm theta2 origin tree).subset ht)
  · intro hnear
    have hp : found.Perm ((others positions index).map .near) :=
      (sources_perm theta2 index origin tree hnear).trans ((hg.bodies_perm.filter _).map _)
    have ht := hp.map (pullOf strength alpha salt index origin)
    rw [List.map_map] at ht
    refine ⟨ht, ?_⟩
    rw [ht.length_eq, List.length_map]
    exact length_others positions index hlt

/-- Two bodies at one point, two that are close to each other and far from the first ones, and one
whose position is not a number. -/
def crowd : List Point :=
  [⟨0, 0⟩, ⟨0, 0⟩, ⟨300, 40⟩, ⟨310, 45⟩, ⟨0 / 0, 5⟩]

theorem forceAt_accounts_once_crowd :
    let seen := visited 0.81 ⟨0, 0⟩ (ofPoints (-300) crowd)
    crowd[0]? = some ⟨0, 0⟩ ∧
      seen.flatMap (single 0.81 0 ⟨0, 0⟩) = [4, 1] ∧
      seen.flatMap (grouped 0.81 ⟨0, 0⟩) = [2, 3] ∧
      (∀ j < 5, j ≠ 0 →
        (seen.flatMap (single 0.81 0 ⟨0, 0⟩)).count j +
          (seen.flatMap (grouped 0.81 ⟨0, 0⟩)).count j = 1) ∧
      ∃ terms, forceAt (-300) 1 0.000001 7 crowd 0 = .ok (Point.sum terms) ∧ terms.length = 4 := by
  have h : crowd[0]? = some ⟨0, 0⟩ := rfl
  obtain ⟨_, _, _, hcount, _⟩ := forceAt_accounts_once (-300) 1 0.81 7 crowd 0 ⟨0, 0⟩ h
  obtain ⟨_, hforce, _, _, _, _, hnear⟩ :=
    forceAt_accounts_once (-300) 1 0.000001 7 crowd 0 ⟨0, 0⟩ h
  have hfar : ∀ t ∈ visited 0.000001 ⟨0, 0⟩ (ofPoints (-300) crowd),
      accepted 0.000001 ⟨0, 0⟩ t = false := by decide +kernel
  have hsingle : (visited 0.81 ⟨0, 0⟩ (ofPoints (-300) crowd)).flatMap (single 0.81 0 ⟨0, 0⟩) =
      [4, 1] := by decide +kernel
  have hgrouped : (visited 0.81 ⟨0, 0⟩ (ofPoints (-300) crowd)).flatMap (grouped 0.81 ⟨0, 0⟩) =
      [2, 3] := by decide +kernel
  obtain ⟨_, hlen⟩ := hnear hfar
  rw [show crowd.length = 4 + 1 from rfl] at hlen
  exact ⟨h, hsingle, hgrouped, hcount, _, hforce, Nat.add_right_cancel hlen⟩

end CodeAtlas.Quadtree
