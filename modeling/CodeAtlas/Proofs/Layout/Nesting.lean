import CodeAtlas.Proofs.Layout.Walk

namespace CodeAtlas.Quadtree

/-- How deep the cell in a slot lies: the first one is not inside any other. -/
inductive Lies (arena : List Entry) : Nat → Nat → Prop where
  | root : Lies arena 0 0
  | inside {p c depth : Nat} {e : Entry} (h : Lies arena p depth) (hp : arena[p]? = some e)
      (hc : c ∈ e.children) : Lies arena c (depth + 1)

/-- An arena that holds a tree of squares over a list of points, where `own` lists for each slot
the numbers of the bodies of which the cell was made. -/
structure Nested (strength : Float32) (positions : List Point) (arena : List Entry)
    (own : Nat → List Nat) : Prop where
  root : arena ≠ [] ∧ own 0 = List.range positions.length
  later : ∀ (p : Nat) (e : Entry), arena[p]? = some e →
    ∀ c ∈ e.children, p < c ∧ c < arena.length ∧ own c ≠ []
  /-- Every slot but the first is a child of one branch, and once. -/
  parents : (arena.flatMap Entry.children).Perm (List.range' 1 (arena.length - 1))
  depth : ∀ slot < arena.length, ∃! depth, Lies arena slot depth
  depth_le : ∀ slot depth, Lies arena slot depth → depth ≤ maxDepth
  /-- Only the deepest leaves hold several bodies. -/
  single : ∀ (slot depth : Nat) (e : Entry) (bodies : List Nat), Lies arena slot depth →
    arena[slot]? = some e → e.content = .leaf bodies → bodies.length = 1 ∨ depth = maxDepth
  leaves : (arena.flatMap Entry.bodies).Perm (List.range positions.length)
  leaf : ∀ (slot : Nat) (e : Entry) (bodies : List Nat), arena[slot]? = some e →
    e.content = .leaf bodies → bodies = own slot
  /-- The children of a branch share its bodies out among them. -/
  branch : ∀ (slot : Nat) (e : Entry) (children : List Nat), arena[slot]? = some e →
    e.content = .branch children → (children.flatMap own).Perm (own slot)
  /-- No body counts twice in a cell, and its center and weight are those of its bodies. -/
  summed : ∀ (slot : Nat) (e : Entry), arena[slot]? = some e →
    (own slot).Sublist (List.range positions.length) ∧
      e.center = Point.mean ((own slot).map (positions.getD · default)) ∧
      e.weight = strength * Float32.ofNat (own slot).length

theorem eq_of_mem_flatMap {α β : Type} (f : α → List β) (l : List α) (h : (l.flatMap f).Nodup)
    (p q : Nat) (a b : α) (c : β) (ha : l[p]? = some a) (hb : l[q]? = some b) (hca : c ∈ f a)
    (hcb : c ∈ f b) : p = q := by
  have hpair := List.pairwise_iff_getElem.mp (List.nodup_flatMap.mp h).2
  obtain ⟨hp, rfl⟩ := List.getElem?_eq_some_iff.mp ha
  obtain ⟨hq, rfl⟩ := List.getElem?_eq_some_iff.mp hb
  rcases Nat.lt_trichotomy p q with hlt | heq | hlt
  · exact absurd hcb (hpair p q hp hq hlt hca)
  · exact heq
  · exact absurd hca (hpair q p hq hp hlt hcb)

section Depth

variable {arena : List Entry} {slot depth : Nat}

theorem Lies.unique (hlater : ∀ (p : Nat) (e : Entry), arena[p]? = some e → ∀ c ∈ e.children, p < c)
    (hnodup : (arena.flatMap Entry.children).Nodup) (h : Lies arena slot depth) (other : Nat)
    (h' : Lies arena slot other) : other = depth := by
  induction h generalizing other with
  | root =>
    cases h' with
    | root => rfl
    | inside _ hp hc => exact absurd (hlater _ _ hp _ hc) (Nat.not_lt_zero _)
  | inside _ hp hc ih =>
    cases h' with
    | root => exact absurd (hlater _ _ hp _ hc) (Nat.not_lt_zero _)
    | inside h' hp' hc' =>
      obtain rfl := eq_of_mem_flatMap Entry.children arena hnodup _ _ _ _ _ hp hp' hc hc'
      rw [ih _ h']

theorem exists_lies (hlater : ∀ (p : Nat) (e : Entry), arena[p]? = some e → ∀ c ∈ e.children, p < c)
    (hparents : ∀ c, 0 < c → c < arena.length → c ∈ arena.flatMap Entry.children)
    (h : slot < arena.length) : ∃ depth, Lies arena slot depth := by
  induction slot using Nat.strong_induction_on with
  | _ slot ih =>
    by_cases hzero : slot = 0
    · subst hzero
      exact ⟨0, .root⟩
    · obtain ⟨e, he, hc⟩ := List.mem_flatMap.mp (hparents slot (Nat.pos_of_ne_zero hzero) h)
      obtain ⟨p, hp⟩ := List.mem_iff_getElem?.mp he
      have hlt := hlater p e hp slot hc
      obtain ⟨depth, hd⟩ := ih p hlt (hlt.trans h)
      exact ⟨depth + 1, .inside hd hp hc⟩

end Depth

theorem quarters_pair_perm (a b c d a' b' c' d' : List Nat) :
    (a ++ b ++ c ++ d ++ (a' ++ b' ++ c' ++ d')).Perm
      (a ++ a' ++ (b ++ b') ++ (c ++ c') ++ (d ++ d')) := by
  rw [List.perm_iff_count]
  intro x
  simp only [List.count_append]
  omega

theorem flatMap_bodies_entries (t : Quadtree) :
    t.entries.flatMap Entry.bodies = t.bodies.map Body.index := by
  induction t with
  | empty => rfl
  | leaf cell bodies => exact List.append_nil _
  | branch cell a b c d iha ihb ihc ihd =>
    rw [entries_branch, List.flatMap_cons, List.flatMap_append, List.flatMap_append,
      List.flatMap_append, iha, ihb, ihc, ihd]
    simp [entry, Entry.bodies, Entry.ofCell, bodies]

/-- The slot of a tree and the children of all its cells are the slots from which it grows. -/
theorem Grown.children_perm {strength : Float32} {bodies : List Body} {slot next : Nat}
    {t : Quadtree} (h : Grown strength bodies slot t next) :
    (t.slot?.toList ++ t.entries.flatMap Entry.children).Perm
      (List.range' slot t.entries.length) := by
  induction h with
  | empty => exact List.Perm.refl []
  | leaf => exact List.Perm.refl _
  | @branch bodies _ _ _ _ a b c d size slot i j k _ _ _ ha hb hc hd iha ihb ihc ihd =>
    have hchildren : (Quadtree.branch (summary strength bodies size slot) a b c d).entry.children =
        a.slot?.toList ++ b.slot?.toList ++ c.slot?.toList ++ d.slot?.toList :=
      slots_quarters a b c d
    have hlength : (Quadtree.branch (summary strength bodies size slot) a b c d).entries.length =
        a.entries.length + b.entries.length + c.entries.length + d.entries.length + 1 := by
      rw [entries_branch, List.length_cons, List.length_append, List.length_append,
        List.length_append]
    rw [entries_branch, List.flatMap_cons, hchildren, ← entries_branch, hlength, List.range'_succ]
    refine List.Perm.cons slot ?_
    simp only [List.flatMap_append]
    refine (quarters_pair_perm _ _ _ _ _ _ _ _).trans ?_
    refine (((iha.append ihb).append ihc).append ihd).trans ?_
    have hi := ha.next_eq
    have hj : j = slot + 1 + (a.entries.length + b.entries.length) := by
      rw [hb.next_eq, hi, Nat.add_assoc]
    have hk : k = slot + 1 + (a.entries.length + b.entries.length + c.entries.length) := by
      rw [hc.next_eq, hj, Nat.add_assoc]
    rw [hi, hj, hk, List.range'_append_1, List.range'_append_1, List.range'_append_1]

theorem mem_subtrees_trans (t u v : Quadtree) (hu : u ∈ t.subtrees) (hv : v ∈ u.subtrees) :
    v ∈ t.subtrees := by
  induction t with
  | empty => exact absurd hu List.not_mem_nil
  | leaf cell bodies =>
    obtain rfl := List.mem_singleton.mp hu
    exact hv
  | branch cell a b c d iha ihb ihc ihd =>
    simp only [subtrees, List.mem_cons, List.mem_append] at hu ⊢
    rcases hu with rfl | ((hu | hu) | hu) | hu
    · simpa only [subtrees, List.mem_cons, List.mem_append] using hv
    · exact Or.inr (Or.inl (Or.inl (Or.inl (iha hu))))
    · exact Or.inr (Or.inl (Or.inl (Or.inr (ihb hu))))
    · exact Or.inr (Or.inl (Or.inr (ihc hu)))
    · exact Or.inr (Or.inr (ihd hu))

theorem mem_subtrees_self (t : Quadtree) (h : t ≠ .empty) : t ∈ t.subtrees := by
  cases t with
  | empty => exact absurd rfl h
  | leaf => exact List.mem_cons_self
  | branch => exact List.mem_cons_self

theorem subtrees_quarter (cell : Cell) (a b c d v : Quadtree) (hv : v ∈ [a, b, c, d]) :
    v.subtrees ⊆ (Quadtree.branch cell a b c d).subtrees := by
  intro u hu
  have hall : u ∈ [a, b, c, d].flatMap subtrees := List.mem_flatMap.mpr ⟨v, hv, hu⟩
  rw [subtrees]
  exact List.mem_cons_of_mem _ (by simpa using hall)

/-- A cell that was made of `own`, some of `all` bodies, with `levels` splits left. -/
structure Made (atLeast : Float32 → Float32 → Bool) (strength : Float32) (all own : List Body)
    (levels slot : Nat) (u : Quadtree) : Prop where
  ne_nil : own ≠ []
  sublist : own.Sublist all
  grows : ∃ corner size next, Grows atLeast strength levels own corner size slot u next

section Made

variable {atLeast : Float32 → Float32 → Bool} {strength size : Float32} {levels slot next : Nat}
  {all bodies : List Body} {corner : Point} {t u : Quadtree}

theorem Made.quarter {own : List Body} {cell : Cell} {a b c d : Quadtree}
    (h : Made atLeast strength all own levels slot (.branch cell a b c d)) (v : Quadtree)
    (hv : v ∈ [a, b, c, d]) (hne : v ≠ .empty) :
    ∃ levels' own' slot', levels = levels' + 1 ∧ slot < slot' ∧
      Made atLeast strength all own' levels' slot' v := by
  obtain ⟨corner, size, next, hg⟩ := h.grows
  have hmade : ∀ {levels' q slot' corner' size' next'}, Grows atLeast strength levels'
      (Quadtree.quarter atLeast (middle corner size) own q) corner' size' slot' v next' →
      Made atLeast strength all (Quadtree.quarter atLeast (middle corner size) own q) levels' slot'
        v := by
    intro levels' q slot' corner' size' next' hq
    refine ⟨?_, List.filter_sublist.trans h.sublist, _, _, _, hq⟩
    intro hnil
    rw [hnil] at hq
    exact hne hq.eq_empty
  cases hg with
  | branch _ _ ha hb hc hd =>
    have hi := ha.grown.next_eq
    have hj := hb.grown.next_eq
    have hk := hc.grown.next_eq
    simp only [List.mem_cons, List.not_mem_nil, or_false] at hv
    rcases hv with rfl | rfl | rfl | rfl
    · exact ⟨_, _, _, rfl, by omega, hmade ha⟩
    · exact ⟨_, _, _, rfl, by omega, hmade hb⟩
    · exact ⟨_, _, _, rfl, by omega, hmade hc⟩
    · exact ⟨_, _, _, rfl, by omega, hmade hd⟩

theorem Made.slot?_eq {own : List Body} (h : Made atLeast strength all own levels slot u) :
    u.slot? = some slot := by
  obtain ⟨_, _, _, hg⟩ := h.grows
  exact hg.grown.slot?_root h.ne_nil

theorem Made.bodies_perm {own : List Body} (h : Made atLeast strength all own levels slot u) :
    u.bodies.Perm own := by
  obtain ⟨_, _, _, hg⟩ := h.grows
  exact hg.grown.bodies_perm

/-- The child of a cell is found inside it, later and with one split less to go. -/
theorem Made.child {own : List Body} (h : Made atLeast strength all own levels slot u) (c : Nat)
    (hc : c ∈ u.entry.children) :
    ∃ levels' own' v, levels = levels' + 1 ∧ slot < c ∧ v ∈ u.subtrees ∧
      Made atLeast strength all own' levels' c v := by
  cases u with
  | empty => exact absurd hc List.not_mem_nil
  | leaf => exact absurd hc List.not_mem_nil
  | branch cell a b c' d =>
    obtain ⟨v, hv, hslot⟩ := List.mem_filterMap.mp hc
    have hne : v ≠ .empty := by
      rintro rfl
      cases hslot
    obtain ⟨levels', own', slot', hl, hlt, hmade⟩ := h.quarter v hv hne
    obtain rfl : slot' = c := Option.some.inj (hmade.slot?_eq.symm.trans hslot)
    exact ⟨levels', own', v, hl, hlt, subtrees_quarter cell a b c' d v hv (mem_subtrees_self v hne),
      hmade⟩

theorem Made.subtree {own : List Body} (h : Made atLeast strength all own levels slot t)
    (hu : u ∈ t.subtrees) :
    ∃ levels' own' slot', Made atLeast strength all own' levels' slot' u := by
  induction t generalizing own levels slot with
  | empty => exact absurd hu List.not_mem_nil
  | leaf =>
    obtain rfl := List.mem_singleton.mp hu
    exact ⟨levels, own, slot, h⟩
  | branch cell a b c d iha ihb ihc ihd =>
    have hne : ∀ v : Quadtree, u ∈ v.subtrees → v ≠ .empty := by
      rintro v hv rfl
      exact absurd hv List.not_mem_nil
    simp only [subtrees, List.mem_cons, List.mem_append] at hu
    rcases hu with rfl | ((hu | hu) | hu) | hu
    · exact ⟨levels, own, slot, h⟩
    · obtain ⟨_, _, _, _, _, hmade⟩ := h.quarter a (by simp) (hne a hu)
      exact iha hmade hu
    · obtain ⟨_, _, _, _, _, hmade⟩ := h.quarter b (by simp) (hne b hu)
      exact ihb hmade hu
    · obtain ⟨_, _, _, _, _, hmade⟩ := h.quarter c (by simp) (hne c hu)
      exact ihc hmade hu
    · obtain ⟨_, _, _, _, _, hmade⟩ := h.quarter d (by simp) (hne d hu)
      exact ihd hmade hu

theorem getElem?_entries (t : Quadtree) (slot : Nat) (e : Entry) :
    t.entries[slot]? = some e ↔ ∃ u, t.subtrees[slot]? = some u ∧ u.entry = e := by
  rw [entries, List.getElem?_map, Option.map_eq_some_iff]

theorem Made.at_slot {own : List Body} (h : Made atLeast strength all own levels 0 t) {slot : Nat}
    (hu : t.subtrees[slot]? = some u) :
    ∃ levels' own', Made atLeast strength all own' levels' slot u := by
  obtain ⟨_, _, _, hg⟩ := h.grows
  obtain ⟨levels', own', slot', hmade⟩ := h.subtree (List.mem_of_getElem? hu)
  have hslot := hg.grown.numbered.2.getElem? _ _ slot u hu
  obtain rfl : slot' = slot := by
    rw [Nat.zero_add, hmade.slot?_eq] at hslot
    exact Option.some.inj hslot
  exact ⟨levels', own', hmade⟩

theorem Made.found {own own' : List Body} {levels' : Nat}
    (h : Made atLeast strength all own levels 0 t) (hu : u ∈ t.subtrees)
    (hmade : Made atLeast strength all own' levels' slot u) : t.subtrees[slot]? = some u := by
  obtain ⟨_, _, _, hg⟩ := h.grows
  obtain ⟨k, hk, hstored⟩ := hg.grown.stored u hu
  obtain rfl : slot = k := Option.some.inj (hmade.slot?_eq.symm.trans hk)
  exact hstored

theorem Made.root {own : List Body} (h : Made atLeast strength all own levels 0 t) :
    t.subtrees[0]? = some t := by
  apply h.found (mem_subtrees_self t _) h
  rintro rfl
  cases h.slot?_eq

theorem Made.later {own : List Body} (h : Made atLeast strength all own levels 0 t) (p : Nat)
    (e : Entry) (hp : t.entries[p]? = some e) (c : Nat) (hc : c ∈ e.children) :
    p < c ∧ ∃ levels' own' v, t.subtrees[c]? = some v ∧
      Made atLeast strength all own' levels' c v := by
  obtain ⟨u, hu, rfl⟩ := (getElem?_entries t p e).mp hp
  obtain ⟨_, _, hmade⟩ := h.at_slot hu
  obtain ⟨levels', own', v, _, hlt, hv, hmade'⟩ := hmade.child c hc
  have hvt := mem_subtrees_trans t u v (List.mem_of_getElem? hu) hv
  exact ⟨hlt, levels', own', v, h.found hvt hmade', hmade'⟩

/-- Each step inwards takes one of the splits that the first cell has to go. -/
theorem Lies.made {own : List Body} {depth : Nat} (h : Made atLeast strength all own levels 0 t)
    (hl : Lies t.entries slot depth) :
    ∃ levels' own' u, levels' + depth = levels ∧ t.subtrees[slot]? = some u ∧
      Made atLeast strength all own' levels' slot u := by
  induction hl with
  | root => exact ⟨levels, own, t, rfl, h.root, h⟩
  | @inside p c depth e _ hp hc ih =>
    obtain ⟨levels', own', u, hlevels, hu, hmade⟩ := ih
    obtain ⟨u', hu', rfl⟩ := (getElem?_entries t p e).mp hp
    obtain rfl := Option.some.inj (hu.symm.trans hu')
    obtain ⟨levels'', own'', v, rfl, _, hv, hmade'⟩ := hmade.child c hc
    have hvt := mem_subtrees_trans t u v (List.mem_of_getElem? hu) hv
    exact ⟨levels'', own'', v, by omega, h.found hvt hmade', hmade'⟩

theorem Made.parents {own : List Body} (h : Made atLeast strength all own levels 0 t) :
    (t.entries.flatMap Entry.children).Perm (List.range' 1 (t.entries.length - 1)) := by
  obtain ⟨_, _, _, hg⟩ := h.grows
  have hpos : 0 < t.entries.length := by
    rw [entries, List.length_map]
    exact (List.getElem?_eq_some_iff.mp h.root).1
  have hperm := hg.grown.children_perm
  rw [h.slot?_eq, ← Nat.sub_one_add_one hpos.ne', List.range'_succ] at hperm
  exact hperm.cons_inv

theorem Made.leaf {own : List Body} {bodies : List Nat}
    (h : Made atLeast strength all own levels slot u) (hc : u.entry.content = .leaf bodies) :
    bodies = own.map Body.index ∧ (levels = 0 ∨ own.length = 1) := by
  obtain ⟨_, _, _, hg⟩ := h.grows
  cases hg with
  | empty => exact absurd rfl h.ne_nil
  | leaf _ _ _ _ hone => exact ⟨(Content.leaf.inj hc).symm, hone⟩
  | branch => cases hc

theorem Made.summed {own : List Body} (h : Made atLeast strength all own levels slot u) :
    u.entry.center = Point.mean (own.map (·.position)) ∧
      u.entry.weight = strength * Float32.ofNat own.length := by
  obtain ⟨_, _, _, hg⟩ := h.grows
  cases hg with
  | empty => exact absurd rfl h.ne_nil
  | leaf => exact ⟨rfl, rfl⟩
  | branch => exact ⟨rfl, rfl⟩

end Made

theorem flatMap_slots_perm (own : Nat → List Nat) (ts : List Quadtree)
    (h : ∀ t ∈ ts, ∀ slot, t.slot? = some slot → (own slot).Perm (t.bodies.map Body.index)) :
    ((ts.filterMap slot?).flatMap own).Perm (ts.flatMap fun t => t.bodies.map Body.index) := by
  induction ts with
  | nil => exact List.Perm.refl []
  | cons t ts ih =>
    have hrest := ih fun u hu => h u (List.mem_cons_of_mem t hu)
    rw [List.flatMap_cons]
    cases hslot : t.slot? with
    | none =>
      have hnone : t.bodies = [] := by
        cases t with
        | empty => rfl
        | leaf => cases hslot
        | branch => cases hslot
      rw [List.filterMap_cons_none hslot, hnone]
      exact hrest
    | some slot =>
      rw [List.filterMap_cons_some hslot, List.flatMap_cons]
      exact (h t List.mem_cons_self slot hslot).append hrest

theorem map_position_of_sublist (positions : List Point) (own : List Body)
    (h : own.Sublist (bodiesOf positions)) :
    (own.map Body.index).map (positions.getD · default) = own.map (·.position) := by
  rw [List.map_map]
  apply List.map_congr_left
  intro b hb
  have hpos := position_of_mem_bodiesOf positions b (h.subset hb)
  rw [Function.comp_apply, List.getD_eq_getElem?_getD, hpos]
  rfl

/-- Lists of numbers, one for each slot, that are those of the bodies of which its cell was made. -/
def Owns (atLeast : Float32 → Float32 → Bool) (strength : Float32) (all : List Body) (t : Quadtree)
    (own : Nat → List Nat) : Prop :=
  ∀ slot u, t.subtrees[slot]? = some u → ∃ levels bodies,
    Made atLeast strength all bodies levels slot u ∧ bodies.map Body.index = own slot

section Owns

variable {atLeast : Float32 → Float32 → Bool} {strength : Float32} {levels : Nat}
  {all bodies : List Body} {t : Quadtree} {own : Nat → List Nat}

theorem Made.exists_owns (h : Made atLeast strength all bodies levels 0 t) :
    ∃ own, Owns atLeast strength all t own := by
  have hexists : ∀ slot, ∃ l : List Nat, ∀ u, t.subtrees[slot]? = some u → ∃ levels bodies,
      Made atLeast strength all bodies levels slot u ∧ bodies.map Body.index = l := by
    intro slot
    cases hu : t.subtrees[slot]? with
    | none => exact ⟨[], by simp⟩
    | some u =>
      obtain ⟨levels, bodies, hmade⟩ := h.at_slot hu
      refine ⟨bodies.map Body.index, ?_⟩
      rintro _ ⟨⟩
      exact ⟨levels, bodies, hmade, rfl⟩
  choose own hown using hexists
  exact ⟨own, hown⟩

theorem Owns.perm (ho : Owns atLeast strength all t own) (slot : Nat) (u : Quadtree)
    (hu : t.subtrees[slot]? = some u) : (own slot).Perm (u.bodies.map Body.index) := by
  obtain ⟨_, bodies, hmade, hown⟩ := ho slot u hu
  rw [← hown]
  exact (hmade.bodies_perm.map Body.index).symm

theorem Owns.branch (ho : Owns atLeast strength all t own)
    (h : Made atLeast strength all bodies levels 0 t) (slot : Nat) (e : Entry)
    (children : List Nat) (he : t.entries[slot]? = some e) (hc : e.content = .branch children) :
    (children.flatMap own).Perm (own slot) := by
  obtain ⟨u, hu, rfl⟩ := (getElem?_entries t slot e).mp he
  obtain ⟨_, _, hmade⟩ := h.at_slot hu
  cases u with
  | empty => cases hc
  | leaf => cases hc
  | branch cell a b c d =>
    obtain rfl : [a, b, c, d].filterMap slot? = children := Content.branch.inj hc
    have hquarters : ∀ v ∈ [a, b, c, d], ∀ k, v.slot? = some k →
        (own k).Perm (v.bodies.map Body.index) := by
      intro v hv k hk
      have hne : v ≠ .empty := by
        rintro rfl
        cases hk
      obtain ⟨_, _, k', _, _, hv'⟩ := hmade.quarter v hv hne
      obtain rfl : k' = k := Option.some.inj (hv'.slot?_eq.symm.trans hk)
      have hin := subtrees_quarter cell a b c d v hv (mem_subtrees_self v hne)
      exact ho.perm k' v (h.found (mem_subtrees_trans t _ v (List.mem_of_getElem? hu) hin) hv')
    have hall : [a, b, c, d].flatMap (fun v => v.bodies.map Body.index) =
        (Quadtree.branch cell a b c d).bodies.map Body.index := by
      simp [Quadtree.bodies]
    refine (flatMap_slots_perm own _ hquarters).trans ?_
    rw [hall]
    exact (ho.perm slot _ hu).symm

end Owns

section Nested

variable {atLeast : Float32 → Float32 → Bool} {strength : Float32} {positions : List Point}
  {t : Quadtree} {own : Nat → List Nat}

theorem Owns.root (ho : Owns atLeast strength (bodiesOf positions) t own)
    (h : Made atLeast strength (bodiesOf positions) (bodiesOf positions) maxDepth 0 t) :
    own 0 = List.range positions.length := by
  obtain ⟨_, bodies, hmade, hown⟩ := ho 0 t h.root
  have hlen := hmade.bodies_perm.symm.length_eq.trans h.bodies_perm.length_eq
  rw [← hown, hmade.sublist.eq_of_length hlen, indices_bodiesOf]

theorem Owns.later (ho : Owns atLeast strength (bodiesOf positions) t own)
    (h : Made atLeast strength (bodiesOf positions) (bodiesOf positions) maxDepth 0 t) (p : Nat)
    (e : Entry) (hp : t.entries[p]? = some e) (c : Nat) (hc : c ∈ e.children) :
    p < c ∧ c < t.entries.length ∧ own c ≠ [] := by
  obtain ⟨hlt, _, _, v, hv, _⟩ := h.later p e hp c hc
  obtain ⟨_, bodies, hmade, hown⟩ := ho c v hv
  refine ⟨hlt, ?_, ?_⟩
  · rw [entries, List.length_map]
    exact (List.getElem?_eq_some_iff.mp hv).1
  · rw [← hown]
    exact List.map_eq_nil_iff.not.mpr hmade.ne_nil

theorem Owns.summed (ho : Owns atLeast strength (bodiesOf positions) t own) (slot : Nat)
    (e : Entry) (he : t.entries[slot]? = some e) :
    (own slot).Sublist (List.range positions.length) ∧
      e.center = Point.mean ((own slot).map (positions.getD · default)) ∧
      e.weight = strength * Float32.ofNat (own slot).length := by
  obtain ⟨u, hu, rfl⟩ := (getElem?_entries t slot e).mp he
  obtain ⟨_, bodies, hmade, hown⟩ := ho slot u hu
  rw [← hown, ← indices_bodiesOf, map_position_of_sublist positions bodies hmade.sublist,
    List.length_map]
  exact ⟨hmade.sublist.map Body.index, hmade.summed⟩

theorem Made.depth
    (h : Made atLeast strength (bodiesOf positions) (bodiesOf positions) maxDepth 0 t)
    (slot : Nat) (hslot : slot < t.entries.length) : ∃! depth, Lies t.entries slot depth := by
  have hlater : ∀ (p : Nat) (e : Entry), t.entries[p]? = some e → ∀ c ∈ e.children, p < c :=
    fun p e hp c hc => (h.later p e hp c hc).1
  have hparents : ∀ c, 0 < c → c < t.entries.length → c ∈ t.entries.flatMap Entry.children := by
    intro c hpos hlt
    rw [h.parents.mem_iff, List.mem_range'_1]
    omega
  obtain ⟨depth, hd⟩ := exists_lies hlater hparents hslot
  exact ⟨depth, hd, hd.unique hlater (h.parents.nodup_iff.mpr List.nodup_range')⟩

/-- However the coordinates of the points compare, what grows over them is a nest of cells. -/
theorem Made.nested
    (h : Made atLeast strength (bodiesOf positions) (bodiesOf positions) maxDepth 0 t) :
    ∃ own, Nested strength positions t.entries own := by
  obtain ⟨own, ho⟩ := h.exists_owns
  refine ⟨own, ⟨?_, ho.root h⟩, ho.later h, h.parents, h.depth, ?_, ?_, ?_, ?_, ho.branch h,
    ho.summed⟩
  · intro hnil
    have hroot := (getElem?_entries t 0 t.entry).mpr ⟨t, h.root, rfl⟩
    rw [hnil] at hroot
    cases hroot
  · intro slot depth hl
    obtain ⟨levels, _, _, hlevels, _⟩ := hl.made h
    omega
  · intro slot depth e bodies hl he hc
    obtain ⟨levels, own', u, hlevels, hu, hmade⟩ := hl.made h
    obtain ⟨u', hu', rfl⟩ := (getElem?_entries t slot e).mp he
    obtain rfl := Option.some.inj (hu.symm.trans hu')
    obtain ⟨rfl, hone⟩ := hmade.leaf hc
    rw [List.length_map]
    omega
  · rw [flatMap_bodies_entries, ← indices_bodiesOf]
    exact h.bodies_perm.map Body.index
  · intro slot e bodies he hc
    obtain ⟨u, hu, rfl⟩ := (getElem?_entries t slot e).mp he
    obtain ⟨_, own', hmade, hown⟩ := ho slot u hu
    rw [← hown]
    exact (hmade.leaf hc).1

end Nested

theorem fillAll_nested (atLeast : Float32 → Float32 → Bool) (strength : Float32)
    (positions : List Point) (hne : positions ≠ []) (corner : Point) (size : Float32) :
    ∃ own, Nested strength positions (fillAll atLeast strength positions corner size) own := by
  have hbodies : bodiesOf positions ≠ [] := by simpa [bodiesOf] using hne
  obtain ⟨t, next, hg⟩ := exists_grows atLeast strength maxDepth (bodiesOf positions) corner size 0
  rw [hg.fillAll_eq hne]
  exact Made.nested ⟨hbodies, List.Sublist.refl _, _, _, _, hg⟩

/-- The cells over some points lie one inside the other as the tree has them, whatever comes out of
the comparisons of coordinates and whatever square is taken for the first cell. -/
theorem build_nested (strength : Float32) (positions : List Point) (hne : positions ≠ []) :
    build strength positions = (ofPoints strength positions).entries ∧
      (∃ own, Nested strength positions (build strength positions) own) ∧
      ∀ atLeast corner size,
        ∃ own, Nested strength positions (fillAll atLeast strength positions corner size) own := by
  refine ⟨build_eq strength positions, ?_, ?_⟩
  · rw [build, if_neg hne]
    exact fillAll_nested _ strength positions hne _ _
  · intro atLeast corner size
    exact fillAll_nested atLeast strength positions hne corner size

theorem build_nested_crowd :
    crowd ≠ [] ∧ (build (-300) crowd).length = 32 ∧
      ∃ own, Nested (-300) crowd (build (-300) crowd) own ∧ own 0 = [0, 1, 2, 3, 4] ∧
        own 24 = [0, 1] ∧ Lies (build (-300) crowd) 24 maxDepth := by
  have hne : crowd ≠ [] := List.cons_ne_nil _ _
  obtain ⟨_, ⟨own, hnested⟩, _⟩ := build_nested (-300) crowd hne
  have hlength : (build (-300) crowd).length = 32 := by decide +kernel
  have hcontent : (build (-300) crowd)[24]?.map Entry.content = some (.leaf [0, 1]) := by
    decide +kernel
  obtain ⟨e, he, hleaf⟩ := Option.map_eq_some_iff.mp hcontent
  obtain ⟨depth, hdepth, _⟩ := hnested.depth 24 (by rw [hlength]; decide)
  refine ⟨hne, hlength, own, hnested, hnested.root.2, (hnested.leaf 24 e _ he hleaf).symm, ?_⟩
  rcases hnested.single 24 depth e _ hdepth he hleaf with hone | rfl
  · cases hone
  · exact hdepth

end CodeAtlas.Quadtree
