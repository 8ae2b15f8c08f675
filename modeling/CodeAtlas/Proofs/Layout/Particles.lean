import CodeAtlas.Proofs.Layout.Schedule

namespace CodeAtlas

namespace Simulation

theorem size_foldl {α : Type} (f : Array Particle → α → Array Particle)
    (hf : ∀ ps a, (f ps a).size = ps.size) (l : List α) (ps : Array Particle) :
    (l.foldl f ps).size = ps.size := by
  apply List.foldlRecOn (motive := fun qs : Array Particle => qs.size = ps.size)
  · rfl
  · intro qs hq a _
    rw [hf, hq]

@[simp] theorem size_pullLinks (s : Simulation) (alpha : Float32) (ps : Array Particle) :
    (s.pullLinks alpha ps).size = ps.size := by
  apply size_foldl
  intro ps link
  simp only [pullLink, Array.size_modify]

@[simp] theorem size_repel (s : Simulation) (alpha : Float32) (ps : Array Particle) :
    (s.repel alpha ps).size = ps.size := by
  simp only [repel]
  split
  · rfl
  · rw [Array.size_mapIdx]

@[simp] theorem size_gather (center : Point) (ps : Array Particle) :
    (gather center ps).size = ps.size :=
  Array.size_map

@[simp] theorem size_separate (contact : Float32) (salt : UInt64) (i : Nat) (predicted : Point)
    (ps : Array Particle) (j : Nat) : (separate contact salt i predicted ps j).size = ps.size := by
  simp only [separate]
  split
  · rfl
  · rw [Array.size_modify, Array.size_modify]

@[simp] theorem size_collide (s : Simulation) (ps : Array Particle) :
    (s.collide ps).size = ps.size := by
  simp only [collide]
  split
  · rfl
  · apply size_foldl
    intro ps i
    exact size_foldl _ (size_separate _ _ _ _) _ _

@[simp] theorem size_drift (velocityDecay : Float32) (ps : Array Particle) :
    (drift velocityDecay ps).size = ps.size :=
  Array.size_map

/-- No force makes or removes a particle. -/
@[simp] theorem size_tick (s : Simulation) : s.tick.particles.size = s.particles.size := by
  simp only [tick, size_drift, size_collide, size_gather, size_repel, size_pullLinks]

@[simp] theorem size_start (nodeCount : Nat) (endpoints : List (Nat × Nat)) (forces : Forces)
    (center : Point) : (start nodeCount endpoints forces center).particles.size = nodeCount := by
  simp [start]

end Simulation

namespace LayoutRun

@[simp] theorem length_positions (r : LayoutRun) :
    r.positions.length = r.simulation.particles.size := by
  rw [positions, Simulation.positions, List.length_map, Array.length_toList]

@[simp] theorem length_positions_step (r : LayoutRun) (now : Instant) :
    (r.step now).1.positions.length = r.positions.length := by
  rw [length_positions, length_positions]
  rcases step_cases r now with ⟨_, _, he⟩ | ⟨_, _, he⟩ | ⟨_, he⟩ <;> rw [he]
  exact r.simulation.size_tick

@[simp] theorem center_step (r : LayoutRun) (now : Instant) :
    (r.step now).1.simulation.center = r.simulation.center := by
  rcases step_cases r now with ⟨_, _, he⟩ | ⟨_, _, he⟩ | ⟨_, he⟩ <;> rw [he]
  rfl

end LayoutRun

end CodeAtlas
