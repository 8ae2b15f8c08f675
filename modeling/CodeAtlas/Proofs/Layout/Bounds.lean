import CodeAtlas.Layout.Checked
import CodeAtlas.Proofs.Graph.Indices
import CodeAtlas.Proofs.Layout.Particles
import CodeAtlas.Proofs.Layout.Walk
import CodeAtlas.Proofs.Number.Positive

namespace CodeAtlas

theorem foldlM_eq_some {σ α : Type} (P : σ → Prop) (f : σ → α → σ) (f? : σ → α → Option σ)
    (l : List α) (hkeep : ∀ s a, P s → P (f s a))
    (hstep : ∀ s, P s → ∀ a ∈ l, f? s a = some (f s a)) (s : σ) (hs : P s) :
    l.foldlM f? s = some (l.foldl f s) := by
  induction l generalizing s with
  | nil => rfl
  | cons a l ih =>
    rw [List.foldlM_cons, hstep s hs a List.mem_cons_self, Option.bind_eq_bind, Option.bind_some,
      List.foldl_cons]
    apply ih
    · exact fun t ht b hb => hstep t ht b (List.mem_cons_of_mem a hb)
    · exact hkeep s a hs

namespace Quadtree

section Fill

variable (atLeast : Float32 → Float32 → Bool) (strength : Float32) (positions : List Point)

@[simp] theorem length_patch (arena : List Entry) (slot : Nat) (content : Content) :
    (patch arena slot content).length = arena.length :=
  List.length_modify _ _ _

@[simp] theorem length_reserve (indices : List Nat) (size : Float32) (arena : List Entry) :
    (reserve strength positions indices size arena).length = arena.length + 1 :=
  List.length_append

section Quarters

variable (place : List Nat → Point → Float32 → List Entry → Nat × List Entry)
  (hplace : ∀ indices corner size arena, arena.length < (place indices corner size arena).2.length)
  (indices : List Nat) (corner : Point) (size : Float32) (slot : Nat)

include hplace

theorem lt_length_addQuarter (row : List Nat × List Entry) (q : Nat) (h : slot < row.2.length) :
    slot < (addQuarter atLeast positions place indices corner size row q).2.length := by
  simp only [addQuarter]
  split
  · exact h
  · exact h.trans (hplace _ _ _ _)

theorem lt_length_quarters (qs : List Nat) (row : List Nat × List Entry)
    (h : slot < row.2.length) :
    slot < (qs.foldl (addQuarter atLeast positions place indices corner size) row).2.length := by
  induction qs generalizing row with
  | nil => exact h
  | cons q qs ih =>
    apply ih
    exact lt_length_addQuarter atLeast positions place hplace indices corner size slot row q h

end Quarters

theorem length_lt_fill (levels : Nat) (indices : List Nat) (corner : Point) (size : Float32)
    (arena : List Entry) :
    arena.length < (fill atLeast strength positions levels indices corner size arena).2.length := by
  induction levels generalizing indices corner size arena with
  | zero => simp [fill]
  | succ levels ih =>
    rw [fill]
    split
    · simp
    · rw [length_patch]
      apply lt_length_quarters atLeast positions _ ih
      simp

theorem bodiesAt?_eq (indices : List Nat) (h : ∀ i ∈ indices, i < positions.length) :
    bodiesAt? positions indices = some (bodiesAt positions indices) := by
  apply mapM_eq_some_map
  intro i hi
  simp [h i hi]

theorem reserve?_eq (indices : List Nat) (h : ∀ i ∈ indices, i < positions.length)
    (size : Float32) (arena : List Entry) :
    reserve? strength positions indices size arena =
      some (reserve strength positions indices size arena) := by
  rw [reserve?, bodiesAt?_eq positions indices h]
  rfl

theorem patch?_eq (arena : List Entry) (slot : Nat) (content : Content)
    (h : slot < arena.length) : patch? arena slot content = some (patch arena slot content) :=
  if_pos h

theorem addQuarter?_eq (place : List Nat → Point → Float32 → List Entry → Nat × List Entry)
    (place? : List Nat → Point → Float32 → List Entry → Option (Nat × List Entry))
    (hplace : ∀ indices, (∀ i ∈ indices, i < positions.length) → ∀ corner size arena,
      place? indices corner size arena = some (place indices corner size arena))
    (indices : List Nat) (h : ∀ i ∈ indices, i < positions.length) (corner : Point)
    (size : Float32) (row : List Nat × List Entry) (q : Nat) :
    addQuarter? atLeast positions place? indices corner size row q =
      some (addQuarter atLeast positions place indices corner size row q) := by
  have hbucket : ((bodiesAt positions indices).filter
        (quadrant atLeast (middle corner size) ·.position == q)).map Body.index =
      indices.filter fun i =>
        quadrant atLeast (middle corner size) (positions.getD i default) == q := by
    rw [← quarter, quarter_bodiesAt, map_index_bodiesAt]
  simp only [addQuarter?, addQuarter, bodiesAt?_eq positions indices h, hbucket,
    Option.bind_eq_bind, Option.bind_some]
  split
  · rfl
  · rw [hplace _ fun i hi => h i (List.mem_of_mem_filter hi)]
    rfl

theorem patch?_reserve (indices : List Nat) (size : Float32) (arena : List Entry)
    (content : Content) :
    patch? (reserve strength positions indices size arena) arena.length content =
      some (patch (reserve strength positions indices size arena) arena.length content) :=
  patch?_eq _ _ _ (by simp)

/-- No number of a body and no slot is out of range if none is at the start. -/
theorem fill?_eq (levels : Nat) (indices : List Nat) (h : ∀ i ∈ indices, i < positions.length)
    (corner : Point) (size : Float32) (arena : List Entry) :
    fill? atLeast strength positions levels indices corner size arena =
      some (fill atLeast strength positions levels indices corner size arena) := by
  induction levels generalizing indices corner size arena with
  | zero =>
    rw [fill?, reserve?_eq strength positions indices h, Option.bind_eq_bind, Option.bind_some,
      patch?_reserve]
    rfl
  | succ levels ih =>
    rw [fill?, fill, reserve?_eq strength positions indices h, Option.bind_eq_bind,
      Option.bind_some]
    by_cases hone : indices.length = 1
    · rw [if_pos hone, if_pos hone, patch?_reserve]
      rfl
    · -- the reserved slot stays in range while the quarters are put behind it
      have hlength := length_lt_fill atLeast strength positions levels
      have hreserved :
          arena.length < (reserve strength positions indices size arena).length := by simp
      have hrow := foldlM_eq_some (fun row : List Nat × List Entry => arena.length < row.2.length)
        _ _ [0, 1, 2, 3]
        (lt_length_addQuarter atLeast positions _ hlength indices corner size arena.length)
        (fun row _ q _ => addQuarter?_eq atLeast positions _ _ ih indices h corner size row q)
        ([], reserve strength positions indices size arena) hreserved
      have hslot := lt_length_quarters atLeast positions _ hlength indices corner size
        arena.length [0, 1, 2, 3] ([], reserve strength positions indices size arena) hreserved
      rw [if_neg hone, if_neg hone, hrow, Option.bind_eq_bind, Option.bind_some]
      dsimp only
      rw [patch?_eq _ _ _ hslot]
      rfl

end Fill

theorem build?_eq (strength : Float32) (positions : List Point) :
    build? strength positions = some (build strength positions) := by
  cases positions with
  | nil => rfl
  | cons p ps =>
    rw [build?, build, if_neg (List.cons_ne_nil p ps), if_neg (List.cons_ne_nil p ps),
      List.getElem?_cons_zero, Option.bind_eq_bind, Option.bind_some]
    dsimp only
    rw [fill?_eq _ _ _ _ _ fun i hi => List.mem_range.mp hi]
    rfl

theorem forceOn?_build (strength alpha theta2 : Float32) (salt : UInt64)
    (positions : List Point) (index : Nat) (origin : Point)
    (h : positions[index]? = some origin) :
    forceOn? strength alpha theta2 salt (build strength positions) positions index =
      some (forceOn strength alpha theta2 salt (ofPoints strength positions) index origin) := by
  have hne : positions ≠ [] := by
    rintro rfl
    exact absurd h (by simp)
  have hsome : (build strength positions).isEmpty = false := by
    rw [List.isEmpty_eq_false_iff, ← List.length_pos_iff, build, if_neg hne]
    exact length_lt_fill _ strength positions _ _ _ _ []
  rw [forceOn?, hsome, if_neg Bool.false_ne_true, h, Option.bind_eq_bind, Option.bind_some,
    walk?_build strength theta2 positions index origin hne]
  rfl

end Quadtree

namespace Simulation

theorem change?_bind_change? (ps : Array Particle) (i j : Nat) (f g : Particle → Particle)
    (hi : i < ps.size) (hj : j < ps.size) :
    (change? ps i f).bind (fun qs => change? qs j g) = some ((ps.modify i f).modify j g) := by
  rw [change?, if_pos hi, Option.bind_some, change?, Array.size_modify, if_pos hj]

theorem getElem?_eq_getD (ps : Array Particle) (i : Nat) (h : i < ps.size) :
    ps[i]? = some (ps.getD i default) := by
  rw [Array.getD_eq_getD_getElem?, Array.getElem?_eq_getElem h]
  rfl

theorem pullLink?_eq (distance alpha : Float32) (salt : UInt64) (ps : Array Particle)
    (link : Link × Nat) (hs : link.1.source < ps.size) (ht : link.1.target < ps.size) :
    pullLink? distance alpha salt ps link = some (pullLink distance alpha salt ps link) := by
  rw [pullLink?, getElem?_eq_getD ps _ hs, getElem?_eq_getD ps _ ht]
  exact change?_bind_change? ps _ _ _ _ ht hs

example : pullLink? 30 1 0 #[default] (⟨0, 1, 1, 0.5⟩, 0) = none := rfl

theorem pullLinks?_eq (s : Simulation) (alpha : Float32) (ps : Array Particle)
    (h : ∀ l ∈ s.links, l.source < ps.size ∧ l.target < ps.size) :
    s.pullLinks? alpha ps = some (s.pullLinks alpha ps) := by
  apply foldlM_eq_some (·.size = ps.size)
  · intro qs link hqs
    simpa only [pullLink, Array.size_modify] using hqs
  · intro qs hqs link hl
    obtain ⟨hs, ht⟩ := h link.1 (List.fst_mem_of_mem_zipIdx hl)
    exact pullLink?_eq _ _ _ qs link (hqs ▸ hs) (hqs ▸ ht)
  · rfl

theorem mapM_forceOn? (strength alpha theta2 : Float32) (salt : UInt64) (ps : Array Particle) :
    let positions := ps.toList.map (·.position)
    let tree := Quadtree.ofPoints strength positions
    let arena := Quadtree.build strength positions
    (List.range ps.size).mapM (Quadtree.forceOn? strength alpha theta2 salt arena positions) =
      some ((List.range ps.size).map fun i =>
        tree.forceOn strength alpha theta2 salt i (ps.getD i default).position) := by
  apply Quadtree.mapM_eq_some_map
  intro i hi
  apply Quadtree.forceOn?_build
  rw [List.getElem?_map, Array.getElem?_toList, getElem?_eq_getD ps i (List.mem_range.mp hi)]
  rfl

theorem zipWith_push (ps : Array Particle) (f : Nat → Point → Point) :
    Array.zipWith Particle.push ps
        ((List.range ps.size).map fun i => f i (ps.getD i default).position).toArray =
      ps.mapIdx fun i p => p.push (f i p.position) := by
  apply Array.ext
  · simp
  · intro i hi _
    have hi : i < ps.size := by simpa using hi
    simp [hi]

theorem repel?_eq (s : Simulation) (alpha : Float32) (ps : Array Particle) :
    s.repel? alpha ps = some (s.repel alpha ps) := by
  simp only [repel?, repel]
  split
  · rfl
  · rw [Quadtree.build?_eq, Option.bind_eq_bind, Option.bind_some, mapM_forceOn?]
    exact congrArg some (zipWith_push ps _)

theorem separate?_eq (contact : Float32) (salt : UInt64) (i : Nat) (predicted : Point)
    (ps : Array Particle) (j : Nat) (hi : i < ps.size) (hj : j < ps.size) :
    separate? contact salt i predicted ps j = some (separate contact salt i predicted ps j) := by
  rw [separate?, getElem?_eq_getD ps j hj, Option.bind_eq_bind, Option.bind_some, separate]
  by_cases hd : (predicted - (ps.getD j default).predicted).lengthSquared ≥ contact * contact
  · rw [if_pos hd, if_pos hd]
  · rw [if_neg hd, if_neg hd]
    exact change?_bind_change? ps i j _ _ hi hj

theorem lt_of_mem_gridOf (contact : Float32) (ps : Array Particle) (c : GridCell) (j : Nat)
    (h : j ∈ (gridOf contact ps).getD c []) : j < ps.size := by
  have hall : ∀ c, ∀ j ∈ (gridOf contact ps).getD c [], j < ps.size := by
    apply List.foldlRecOn (motive := fun g : Grid => ∀ c, ∀ j ∈ g.getD c [], j < ps.size)
    · simp
    · intro g hg p hp c j hj
      rw [Std.HashMap.getD_insert] at hj
      split at hj
      · rcases List.mem_append.mp hj with hj | hj
        · exact hg _ j hj
        · rw [List.mem_singleton.mp hj]
          exact List.snd_lt_of_mem_zipIdx hp
      · exact hg c j hj
  exact hall c j h

theorem lt_of_mem_partners (contact : Float32) (ps : Array Particle) (c : GridCell) (i j : Nat)
    (h : j ∈ partners (gridOf contact ps) c i) : j < ps.size := by
  obtain ⟨n, _, hn⟩ := List.mem_flatMap.mp h
  exact lt_of_mem_gridOf contact ps n j (List.mem_of_mem_filter hn)

theorem collide?_eq (s : Simulation) (ps : Array Particle) :
    s.collide? ps = some (s.collide ps) := by
  rw [collide?, collide]
  split
  · rfl
  · apply foldlM_eq_some (·.size = ps.size)
    · exact fun qs i hqs => (size_foldl _ (size_separate _ _ _ _) _ qs).trans hqs
    · intro qs hqs i hi
      have hi : i < qs.size := hqs ▸ List.mem_range.mp hi
      rw [collideFrom?, getElem?_eq_getD qs i hi, Option.bind_eq_bind, Option.bind_some]
      apply foldlM_eq_some (·.size = qs.size)
      · exact fun rs j hrs => (size_separate _ _ _ _ rs j).trans hrs
      · intro rs hrs j hj
        have hj := lt_of_mem_partners _ ps _ i j hj
        apply separate?_eq
        · omega
        · omega
      · rfl
    · rfl

/-- No index is out of range in a tick if none is in a link. -/
theorem tick?_eq (s : Simulation)
    (h : ∀ l ∈ s.links, l.source < s.particles.size ∧ l.target < s.particles.size) :
    s.tick? = some s.tick := by
  simp only [tick?, pullLinks?_eq s _ s.particles h, repel?_eq, collide?_eq, Option.bind_eq_bind,
    Option.bind_some]
  rfl

inductive Operation where
  | tick
  | setCenter (center : Point)

def perform (s : Simulation) : Operation → Simulation
  | .tick => s.tick
  | .setCenter center => s.setCenter center

def after (s : Simulation) (ops : List Operation) : Simulation :=
  ops.foldl perform s

def velocities (s : Simulation) : List Point :=
  s.particles.toList.map (·.velocity)

/-- One particle for each node, and one spring for each pair of ends. -/
structure Lays (nodeCount : Nat) (endpoints : List (Nat × Nat)) (s : Simulation) : Prop where
  size : s.particles.size = nodeCount
  links : s.links = endpoints.map (linkOf endpoints)

variable {nodeCount : Nat} {endpoints : List (Nat × Nat)} {s : Simulation}

theorem Lays.start (nodeCount : Nat) (endpoints : List (Nat × Nat)) (forces : Forces)
    (center : Point) : Lays nodeCount endpoints (start nodeCount endpoints forces center) :=
  ⟨size_start nodeCount endpoints forces center, rfl⟩

theorem Lays.perform (h : Lays nodeCount endpoints s) (op : Operation) :
    Lays nodeCount endpoints (s.perform op) := by
  cases op with
  | tick => exact ⟨s.size_tick.trans h.size, h.links⟩
  | setCenter center => exact ⟨h.size, h.links⟩

theorem Lays.after (h : Lays nodeCount endpoints s) (ops : List Operation) :
    Lays nodeCount endpoints (s.after ops) := by
  apply List.foldlRecOn (motive := Lays nodeCount endpoints)
  · exact h
  · exact fun t ht op _ => ht.perform op

theorem Lays.ends (h : Lays nodeCount endpoints s) :
    s.links.map (fun l => (l.source, l.target)) = endpoints := by
  rw [h.links, List.map_map]
  exact List.map_id' endpoints

theorem sum_countP {α : Type} (f : α → Nat) (l : List α) (n : Nat) (h : ∀ a ∈ l, f a < n) :
    ∑ i ∈ Finset.range n, l.countP (f · == i) = l.length := by
  induction l with
  | nil => simp
  | cons a l ih =>
    have ha : f a ∈ Finset.range n := Finset.mem_range.mpr (h a List.mem_cons_self)
    simp only [List.countP_cons, Finset.sum_add_distrib, beq_iff_eq, Finset.sum_ite_eq, ha,
      if_true, ih fun b hb => h b (List.mem_cons_of_mem a hb), List.length_cons]

/-- A link has two ends. -/
theorem sum_degree (n : Nat) (endpoints : List (Nat × Nat))
    (h : ∀ e ∈ endpoints, e.1 < n ∧ e.2 < n) :
    ∑ node ∈ Finset.range n, degree endpoints node = 2 * endpoints.length := by
  have h₁ := sum_countP Prod.fst endpoints n fun e he => (h e he).1
  have h₂ := sum_countP Prod.snd endpoints n fun e he => (h e he).2
  simp only [degree, Finset.sum_add_distrib, h₁, h₂]
  omega

theorem degree_pos (endpoints : List (Nat × Nat)) (e : Nat × Nat) (h : e ∈ endpoints) :
    0 < degree endpoints e.1 ∧ 0 < degree endpoints e.2 := by
  have h₁ : 0 < endpoints.countP (·.1 == e.1) := List.countP_pos_iff.mpr ⟨e, h, beq_self_eq_true _⟩
  have h₂ : 0 < endpoints.countP (·.2 == e.2) := List.countP_pos_iff.mpr ⟨e, h, beq_self_eq_true _⟩
  rw [degree, degree]
  omega

theorem Lays.link (h : Lays nodeCount endpoints s)
    (hends : ∀ e ∈ endpoints, e.1 < nodeCount ∧ e.2 < nodeCount) (l : Link) (hl : l ∈ s.links) :
    l.source < nodeCount ∧ l.target < nodeCount ∧
      0 < degree endpoints l.source ∧ 0 < degree endpoints l.target ∧
      l.strength =
        1 / Float32.ofNat (min (degree endpoints l.source) (degree endpoints l.target)) := by
  rw [h.links] at hl
  obtain ⟨e, he, rfl⟩ := List.mem_map.mp hl
  obtain ⟨hs, ht⟩ := hends e he
  obtain ⟨ds, dt⟩ := degree_pos endpoints e he
  exact ⟨hs, ht, ds, dt, rfl⟩

/-- A simulation of a graph stays within its bounds for any number of ticks, wherever its particles
may be: each node has a place and a velocity, each link ends at nodes that have links, and no tick
asks for a particle or a cell that is not there. -/
theorem after_in_bounds (steps : List Graph.Step) (forces : Forces) (center : Point)
    (ops : List Operation) :
    let g := Graph.grown steps
    let s := (start g.nodeCount g.endpoints.toList forces center).after ops
    let ends := s.links.map fun l => (l.source, l.target)
    s.positions.length = g.nodeCount ∧
    s.velocities.length = g.nodeCount ∧
    s.links.length = g.edgeCount ∧
    (∀ l ∈ s.links, l.source < g.nodeCount ∧ l.target < g.nodeCount ∧
      0 < degree ends l.source ∧ 0 < degree ends l.target ∧
      l.strength = 1 / Float32.ofNat (min (degree ends l.source) (degree ends l.target)) ∧
      0 < Float32.ofNat (min (degree ends l.source) (degree ends l.target))) ∧
    ∑ node ∈ Finset.range g.nodeCount, degree ends node = 2 * s.links.length ∧
    s.tick? = some s.tick := by
  intro g s ends
  have hg := Graph.resolved_grown steps
  have hs : Lays g.nodeCount g.endpoints.toList s := (Lays.start _ _ forces center).after ops
  have hends : ends = g.endpoints.toList := hs.ends
  have hlt : ∀ e ∈ ends, e.1 < g.nodeCount ∧ e.2 < g.nodeCount := by
    rw [hends]
    exact hg.lt_of_mem_endpoints g
  have hcount : ends.length = s.links.length := List.length_map _
  have hlink := hs.link (hends ▸ hlt)
  rw [← hends] at hlink
  refine ⟨?_, ?_, ?_, ?_, ?_, ?_⟩
  · rw [positions, List.length_map, Array.length_toList, hs.size]
  · rw [velocities, List.length_map, Array.length_toList, hs.size]
  · rw [← hcount, hends, Array.length_toList]
    exact hg.size_endpoints g
  · intro l hl
    obtain ⟨hsource, htarget, ds, dt, he⟩ := hlink l hl
    refine ⟨hsource, htarget, ds, dt, he, ?_⟩
    apply Number.ofNat_pos
    omega
  · rw [← hcount]
    exact sum_degree g.nodeCount ends hlt
  · apply tick?_eq
    intro l hl
    obtain ⟨hsource, htarget, _⟩ := hlink l hl
    rw [hs.size]
    exact ⟨hsource, htarget⟩

end Simulation

end CodeAtlas
