import Mathlib
import CodeAtlas.Layout.Checked
import CodeAtlas.Proofs.Number.Positive

namespace CodeAtlas.Simulation

/-- One of the nine cells around `c`, where the columns and rows go round at 32 bits. -/
def GridCell.Borders (c n : GridCell) : Prop :=
  ∃ dx ∈ [-1, 0, 1], ∃ dy ∈ [-1, 0, 1], n = ⟨c.column + dx, c.row + dy⟩

theorem GridCell.mem_around (c n : GridCell) : n ∈ c.around ↔ c.Borders n := by
  simp only [around, Borders, List.mem_flatMap, List.mem_map, eq_comm]

/-- No cell is reached in two ways, also where the columns or rows go round. -/
theorem GridCell.nodup_around (c : GridCell) : c.around.Nodup := by
  have hsteps : ([-1, 0, 1] : List Int32).Nodup := by decide
  rw [around, List.nodup_flatMap]
  constructor
  · intro dx _
    apply hsteps.map
    intro dy dy' h
    exact (Int32.add_right_inj _).mp (GridCell.mk.inj h).2
  · refine hsteps.imp ?_
    intro dx dx' hne
    rw [Function.onFun, List.disjoint_left]
    intro n hn hn'
    obtain ⟨dy, _, rfl⟩ := List.mem_map.mp hn
    obtain ⟨dy', _, h⟩ := List.mem_map.mp hn'
    exact hne ((Int32.add_right_inj _).mp (GridCell.mk.inj h).1).symm

example : (⟨2147483647, 0⟩ : GridCell).around.contains ⟨-2147483648, 1⟩ = true := by decide

def cellIn (contact : Float32) (ps : Array Particle) (i : Nat) : GridCell :=
  GridCell.ofPoint contact (ps.getD i default).predicted

theorem zipIdx_toList (ps : Array Particle) :
    ps.toList.zipIdx = (List.range ps.size).map fun i => (ps.getD i default, i) := by
  apply List.ext_getElem
  · simp
  · intro i hi _
    have hi : i < ps.size := by simpa using hi
    simp [hi]

theorem getD_foldl_insert (key : Nat → GridCell) (l : List Nat) (g : Grid) (c : GridCell) :
    (l.foldl (fun g i => g.insert (key i) (g.getD (key i) [] ++ [i])) g).getD c [] =
      g.getD c [] ++ l.filter (key · = c) := by
  induction l generalizing g with
  | nil => simp
  | cons i l ih =>
    rw [List.foldl_cons, ih, Std.HashMap.getD_insert]
    by_cases h : key i = c
    · simp [h]
    · simp [h]

/-- A cell holds the particles that are headed there at the start, in order. -/
theorem getD_gridOf (contact : Float32) (ps : Array Particle) (c : GridCell) :
    (gridOf contact ps).getD c [] = (List.range ps.size).filter (cellIn contact ps · = c) := by
  rw [gridOf, zipIdx_toList, List.foldl_map]
  exact (getD_foldl_insert (cellIn contact ps) _ ∅ c).trans (by simp)

theorem partners_eq (grid : Grid) (c : GridCell) (i : Nat) :
    partners grid c i = (c.around.flatMap (grid.getD · [])).filter (i < ·) := by
  rw [partners, List.filter_flatMap]

theorem mem_partners (contact : Float32) (ps : Array Particle) (c : GridCell) (i j : Nat) :
    j ∈ partners (gridOf contact ps) c i ↔
      i < j ∧ j < ps.size ∧ c.Borders (cellIn contact ps j) := by
  simp only [partners, List.mem_flatMap, getD_gridOf, List.mem_filter, List.mem_range,
    decide_eq_true_eq, GridCell.mem_around]
  constructor
  · rintro ⟨n, hn, ⟨hj, rfl⟩, hij⟩
    exact ⟨hij, hj, hn⟩
  · rintro ⟨hij, hj, hn⟩
    exact ⟨_, hn, ⟨hj, rfl⟩, hij⟩

/-- No particle is found twice around a cell: each is in one cell, and each cell is reached once. -/
theorem nodup_partners (contact : Float32) (ps : Array Particle) (c : GridCell) (i : Nat) :
    (partners (gridOf contact ps) c i).Nodup := by
  simp only [partners, getD_gridOf]
  rw [List.nodup_flatMap]
  constructor
  · intro n _
    exact (List.nodup_range.filter _).filter _
  · refine c.nodup_around.imp ?_
    intro n n' hne
    rw [Function.onFun, List.disjoint_left]
    intro j hj hj'
    simp only [List.mem_filter, decide_eq_true_eq] at hj hj'
    exact hne (hj.1.2.symm.trans hj'.1.2)

theorem foldl_meet (contact : Float32) (salt : UInt64) (i : Nat) (predicted : Point)
    (l : List Nat) (w : Sweep) :
    l.foldl (Sweep.meet contact salt i predicted) w =
      ⟨(l.filter (i < ·)).foldl (separate contact salt i predicted) w.particles,
        w.examined ++ (l.filter (i < ·)).map (i, ·)⟩ := by
  induction l generalizing w with
  | nil => simp
  | cons j l ih =>
    rw [List.foldl_cons, ih, Sweep.meet]
    by_cases h : j ≤ i
    · simp [h, Nat.not_lt.mpr h]
    · simp [h, Nat.lt_of_not_le h]

/-- A visit does what the particle's turn in the layout does, and writes its partners down. -/
theorem visit_eq (contact : Float32) (salt : UInt64) (grid : Grid) (w : Sweep) (i : Nat) :
    w.visit contact salt grid i =
      ⟨collideFrom contact salt grid w.particles i,
        w.examined ++ (partners grid (cellIn contact w.particles i) i).map (i, ·)⟩ := by
  rw [collideFrom, partners_eq, partners_eq, Sweep.visit, ← List.foldl_flatMap, foldl_meet]
  rfl

/-- One more particle: the pairs of the new one come after all that have been examined before. -/
theorem sweepTo_succ (s : Simulation) (ps : Array Particle) (n : Nat) :
    s.sweepTo ps (n + 1) =
      (s.sweepTo ps n).visit (s.forces.collideRadius * 2) (salt s.ticks 3)
        (gridOf (s.forces.collideRadius * 2) ps) n := by
  rw [sweepTo, List.range_succ, List.foldl_concat]
  rfl

theorem particles_sweepTo (s : Simulation) (ps : Array Particle) (n : Nat) :
    (s.sweepTo ps n).particles = (List.range n).foldl
      (collideFrom (s.forces.collideRadius * 2) (salt s.ticks 3)
        (gridOf (s.forces.collideRadius * 2) ps)) ps := by
  induction n with
  | zero => rfl
  | succ n ih => rw [sweepTo_succ, visit_eq, List.range_succ, List.foldl_concat, ih]

theorem particles_sweep (s : Simulation) (ps : Array Particle) :
    (s.sweep ps).particles = s.collide ps := by
  rw [sweep, collide]
  split
  · rfl
  · exact particles_sweepTo s ps ps.size

def met (s : Simulation) (ps : Array Particle) (i : Nat) : List Nat :=
  let contact := s.forces.collideRadius * 2
  partners (gridOf contact ps) (cellIn contact (s.sweepTo ps i).particles i) i

theorem examined_sweepTo (s : Simulation) (ps : Array Particle) (n : Nat) :
    (s.sweepTo ps n).examined = (List.range n).flatMap fun i => (s.met ps i).map (i, ·) := by
  induction n with
  | zero => rfl
  | succ n ih =>
    rw [sweepTo_succ, visit_eq, ih, List.range_succ, List.flatMap_append, List.flatMap_singleton]
    rfl

theorem mem_examined_sweepTo (s : Simulation) (ps : Array Particle) (n i j : Nat) :
    (i, j) ∈ (s.sweepTo ps n).examined ↔ i < n ∧ j ∈ s.met ps i := by
  rw [examined_sweepTo]
  simp only [List.mem_flatMap, List.mem_range, List.mem_map, Prod.mk.injEq]
  constructor
  · rintro ⟨_, hi, _, hj, rfl, rfl⟩
    exact ⟨hi, hj⟩
  · rintro ⟨hi, hj⟩
    exact ⟨i, hi, j, hj, rfl, rfl⟩

theorem nodup_examined_sweepTo (s : Simulation) (ps : Array Particle) (n : Nat) :
    (s.sweepTo ps n).examined.Nodup := by
  rw [examined_sweepTo, List.nodup_flatMap]
  constructor
  · intro i _
    exact (nodup_partners _ _ _ _).map (Prod.mk_right_injective i)
  · refine List.nodup_range.imp ?_
    intro i i' hne
    rw [Function.onFun, List.disjoint_left]
    intro p hp hp'
    obtain ⟨j, _, rfl⟩ := List.mem_map.mp hp
    obtain ⟨j', _, h⟩ := List.mem_map.mp hp'
    exact hne (Prod.mk.inj h).1.symm

theorem nodup_unordered (pairs : List (Nat × Nat)) (h : pairs.Nodup)
    (hlt : ∀ p ∈ pairs, p.1 < p.2) : (pairs.map fun p => s(p.1, p.2)).Nodup := by
  apply h.map_on
  rintro ⟨i, j⟩ hp ⟨i', j'⟩ hp' he
  have hij := hlt _ hp
  have hij' := hlt _ hp'
  rcases Sym2.eq_iff.mp he with ⟨rfl, rfl⟩ | ⟨rfl, rfl⟩
  · rfl
  · exact absurd hij (Nat.lt_asymm hij')

/-- A round of collisions, wherever the particles are and however they move: two particles are
compared at most once and none with itself. The particles `i < j` are compared exactly if `j` was
headed at the start for one of the nine cells around the one for which `i` is headed when its turn
comes, after all that the earlier particles have changed. -/
theorem sweep_examines_once (s : Simulation) (ps : Array Particle)
    (h : 0 < s.forces.collideRadius) :
    let contact := s.forces.collideRadius * 2
    let pairs := (s.sweep ps).examined
    (s.sweep ps).particles = s.collide ps ∧
    (pairs.map fun p => s(p.1, p.2)).Nodup ∧
    (∀ p ∈ pairs, p.1 ≠ p.2) ∧
    ∀ i j, (i, j) ∈ pairs ↔ i < j ∧ j < ps.size ∧
      (cellIn contact (s.sweepTo ps i).particles i).Borders (cellIn contact ps j) := by
  intro contact pairs
  have hpairs : pairs = (s.sweepTo ps ps.size).examined :=
    congrArg Sweep.examined (if_neg (Number.not_le_zero_of_pos _ h))
  have hmem : ∀ i j, (i, j) ∈ pairs ↔ i < j ∧ j < ps.size ∧
      (cellIn contact (s.sweepTo ps i).particles i).Borders (cellIn contact ps j) := by
    intro i j
    rw [hpairs, mem_examined_sweepTo, met, mem_partners]
    constructor
    · exact And.right
    · rintro ⟨hij, hj, hb⟩
      exact ⟨hij.trans hj, hij, hj, hb⟩
  have hlt : ∀ p ∈ pairs, p.1 < p.2 := fun p hp => ((hmem p.1 p.2).mp hp).1
  refine ⟨particles_sweep s ps, ?_, fun p hp => (hlt p hp).ne, hmem⟩
  apply nodup_unordered pairs _ hlt
  rw [hpairs]
  exact nodup_examined_sweepTo s ps ps.size

theorem sweep_examines_once_coincident :
    let s : Simulation := ⟨#[], [], Forces.default, Point.zero, 1, 0⟩
    let ps : Array Particle := #[.still ⟨5, 5⟩, .still ⟨5, 5⟩, .still ⟨5, 5⟩]
    0 < s.forces.collideRadius ∧
      (s.sweep ps).examined.count (0, 1) = 1 ∧ (s.sweep ps).examined.count (0, 2) = 1 ∧
      (1, 0) ∉ (s.sweep ps).examined ∧ (1, 1) ∉ (s.sweep ps).examined := by
  intro s ps
  have h : 0 < s.forces.collideRadius := by decide +kernel
  obtain ⟨_, hnodup, hself, hmem⟩ := sweep_examines_once s ps h
  have hborders : ∀ c : GridCell, c.Borders c :=
    fun c => ⟨0, by decide, 0, by decide, by rw [Int32.add_zero, Int32.add_zero]⟩
  refine ⟨h, ?_, ?_, ?_, fun hp => hself _ hp rfl⟩
  · exact List.count_eq_one_of_mem (hnodup.of_map _)
      ((hmem 0 1).mpr ⟨by decide, by decide, hborders _⟩)
  · exact List.count_eq_one_of_mem (hnodup.of_map _)
      ((hmem 0 2).mpr ⟨by decide, by decide, hborders _⟩)
  · intro hp
    exact absurd ((hmem 1 0).mp hp).1 (by decide)

end CodeAtlas.Simulation
