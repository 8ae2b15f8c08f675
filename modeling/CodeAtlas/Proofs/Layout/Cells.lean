import Mathlib.Data.List.Perm.Basic
import CodeAtlas.Layout.Quadtree

namespace CodeAtlas.Quadtree

def bodies : Quadtree → List Body
  | .empty => []
  | .leaf _ bodies => bodies
  | .branch _ a b c d => bodies a ++ bodies b ++ bodies c ++ bodies d

def cell? : Quadtree → Option Cell
  | .empty => none
  | .leaf cell _ => some cell
  | .branch cell _ _ _ _ => some cell

def slot? (t : Quadtree) : Option Nat :=
  t.cell?.map Cell.slot

/-- One tree for each cell, the cell with all that lies inside it. A cell comes before the cells
inside it. -/
def subtrees : Quadtree → List Quadtree
  | .empty => []
  | .leaf cell bodies => [.leaf cell bodies]
  | .branch cell a b c d =>
    .branch cell a b c d :: (subtrees a ++ subtrees b ++ subtrees c ++ subtrees d)

/-- What can be grown from some bodies, wherever they are: the quarters of a branch share its bodies
out among them, and number their cells one after the other. -/
inductive Grown (strength : Float32) : List Body → Nat → Quadtree → Nat → Prop where
  | empty (slot : Nat) : Grown strength [] slot .empty slot
  | leaf {bodies : List Body} (size : Float32) (slot : Nat) (h : bodies ≠ []) :
      Grown strength bodies slot (.leaf (summary strength bodies size slot) bodies) (slot + 1)
  | branch {bodies as bs cs ds : List Body} {a b c d : Quadtree} (size : Float32)
      {slot i j k next : Nat} (h : bodies ≠ []) (hp : (as ++ bs ++ cs ++ ds).Perm bodies)
      (ha : Grown strength as (slot + 1) a i) (hb : Grown strength bs i b j)
      (hc : Grown strength cs j c k) (hd : Grown strength ds k d next) :
      Grown strength bodies slot (.branch (summary strength bodies size slot) a b c d) next

/-- Two tests share a list out among four parts. -/
theorem quarters_perm {α : Type} (right high : α → Bool) (l : List α) :
    (l.filter (fun b => !right b && !high b) ++ l.filter (fun b => right b && !high b) ++
      l.filter (fun b => !right b && high b) ++ l.filter (fun b => right b && high b)).Perm l := by
  have hrow : ∀ m : List α, (m.filter (fun b => !right b) ++ m.filter right).Perm m := by
    intro m
    simpa using List.filter_append_perm (fun b => !right b) m
  have hlow := hrow (l.filter fun b => !high b)
  have hhigh := hrow (l.filter high)
  simp only [List.filter_filter] at hlow hhigh
  rw [List.append_assoc (_ ++ _)]
  refine (hlow.append hhigh).trans ?_
  simpa using List.filter_append_perm (fun b => !high b) l

theorem grown_grow (strength : Float32) (levels : Nat) (bodies : List Body) (corner : Point)
    (size : Float32) (slot : Nat) :
    Grown strength bodies slot (grow strength levels bodies corner size slot).1
      (grow strength levels bodies corner size slot).2 := by
  fun_induction grow strength levels bodies corner size slot with
  | case1 => exact .empty _
  | case2 _ b _ size slot => exact .leaf size slot (List.cons_ne_nil b [])
  | case3 bodies _ size slot hne _ => exact .leaf size slot hne
  | case4 levels bodies corner size slot hne _ _ _ right high a i ha b j hb c k hc d next hd
      iha ihb ihc ihd =>
    rw [ha] at iha
    rw [hb] at ihb
    rw [hc] at ihc
    rw [hd] at ihd
    exact .branch size hne (quarters_perm right high bodies) iha ihb ihc ihd

theorem grown_ofPoints (strength : Float32) (positions : List Point) :
    ∃ next, Grown strength (bodiesOf positions) 0 (ofPoints strength positions) next := by
  cases positions with
  | nil => exact ⟨0, .empty 0⟩
  | cons p ps => exact ⟨_, grown_grow strength maxDepth _ _ _ 0⟩

/-- The slots of a list of trees go up by one from tree to tree. -/
def Numbered (ts : List Quadtree) (slot : Nat) : Prop :=
  ts.map slot? = (List.range' slot ts.length).map some

theorem Numbered.append (ts us : List Quadtree) (slot : Nat) (ht : Numbered ts slot)
    (hu : Numbered us (slot + ts.length)) : Numbered (ts ++ us) slot := by
  rw [Numbered] at ht hu ⊢
  rw [List.map_append, ht, hu, List.length_append, ← List.range'_append_1, List.map_append]

theorem Numbered.getElem? (ts : List Quadtree) (slot : Nat) (h : Numbered ts slot) (k : Nat)
    (t : Quadtree) (ht : ts[k]? = some t) : t.slot? = some (slot + k) := by
  have hk : k < ts.length := (List.getElem?_eq_some_iff.mp ht).1
  have hm : (ts.map slot?)[k]? = some t.slot? := by rw [List.getElem?_map, ht]; rfl
  rw [h, List.getElem?_map, List.getElem?_range' hk] at hm
  simpa using hm.symm

theorem Numbered.filterMap_slot? (ts : List Quadtree) (slot : Nat) (h : Numbered ts slot) :
    ts.filterMap slot? = List.range' slot ts.length := by
  have hm : (ts.map slot?).filterMap id = ts.filterMap slot? := List.filterMap_map
  rw [← hm, h, List.filterMap_map]
  exact List.filterMap_some

section Grown

variable {strength : Float32} {bodies : List Body} {slot next : Nat} {t : Quadtree}

theorem Grown.bodies_perm (h : Grown strength bodies slot t next) : t.bodies.Perm bodies := by
  induction h with
  | empty => exact List.Perm.refl []
  | leaf => exact List.Perm.refl _
  | branch _ _ hp _ _ _ _ iha ihb ihc ihd =>
    exact (((iha.append ihb).append ihc).append ihd).trans hp

theorem Grown.numbered (h : Grown strength bodies slot t next) :
    next = slot + t.subtrees.length ∧ Numbered t.subtrees slot := by
  induction h with
  | empty => exact ⟨rfl, rfl⟩
  | leaf => exact ⟨rfl, rfl⟩
  | @branch bodies _ _ _ _ a b c d size slot _ _ _ _ _ _ _ _ _ _ iha ihb ihc ihd =>
    obtain ⟨rfl, na⟩ := iha
    obtain ⟨rfl, nb⟩ := ihb
    obtain ⟨rfl, nc⟩ := ihc
    obtain ⟨rfl, nd⟩ := ihd
    have hroot : Numbered [.branch (summary strength bodies size slot) a b c d] slot := rfl
    have hinside : Numbered (a.subtrees ++ b.subtrees ++ c.subtrees ++ d.subtrees) (slot + 1) := by
      refine .append _ _ _ (.append _ _ _ (.append _ _ _ na nb) ?_) ?_
      · rwa [List.length_append, ← Nat.add_assoc]
      · rwa [List.length_append, List.length_append, ← Nat.add_assoc, ← Nat.add_assoc]
    refine ⟨?_, .append _ _ _ hroot hinside⟩
    simp only [subtrees, List.length_cons, List.length_append]
    omega

theorem Grown.weight (h : Grown strength bodies slot t next) (u : Quadtree)
    (hu : u ∈ t.subtrees) :
    u.cell?.map Cell.weight = some (strength * Float32.ofNat u.bodies.length) := by
  have hroot := h.bodies_perm.length_eq
  induction h with
  | empty => exact absurd hu List.not_mem_nil
  | leaf =>
    obtain rfl := List.mem_singleton.mp hu
    rfl
  | branch _ _ _ ha hb hc hd iha ihb ihc ihd =>
    simp only [subtrees, List.mem_cons, List.mem_append] at hu
    rcases hu with rfl | ((hu | hu) | hu) | hu
    · rw [hroot]
      rfl
    · exact iha hu ha.bodies_perm.length_eq
    · exact ihb hu hb.bodies_perm.length_eq
    · exact ihc hu hc.bodies_perm.length_eq
    · exact ihd hu hd.bodies_perm.length_eq

theorem Grown.stored (h : Grown strength bodies 0 t next) (u : Quadtree) (hu : u ∈ t.subtrees) :
    ∃ k, u.slot? = some k ∧ t.subtrees[k]? = some u := by
  obtain ⟨k, hk⟩ := List.mem_iff_getElem?.mp hu
  refine ⟨k, ?_, hk⟩
  rw [h.numbered.2.getElem? _ _ k u hk, Nat.zero_add]

theorem Grown.slot?_root (h : Grown strength bodies slot t next) (hne : bodies ≠ []) :
    t.slot? = some slot := by
  cases h with
  | empty => exact absurd rfl hne
  | leaf => rfl
  | branch => rfl

end Grown

end CodeAtlas.Quadtree
