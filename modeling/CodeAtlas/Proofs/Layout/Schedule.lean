import Mathlib.Data.List.Induction
import CodeAtlas.Layout.Run

namespace CodeAtlas.LayoutRun

inductive Operation where
  | step (now : Instant)
  | resize (viewport : Point)

def Operation.instant? : Operation → Option Instant
  | .step now => some now
  | .resize _ => none

def perform (r : LayoutRun) : Operation → LayoutRun
  | .step now => (r.step now).1
  | .resize viewport => r.resize viewport

def after (r : LayoutRun) (ops : List Operation) : LayoutRun :=
  ops.foldl perform r

def instants (ops : List Operation) : List Instant :=
  ops.filterMap Operation.instant?

structure Reading where
  moved : Bool
  alpha : Float32
  ticks : Nat
  stopped : Bool
  remaining : Instant → Duration

def reading (r : LayoutRun) (now : Instant) : Reading where
  moved := (r.step now).2
  alpha := (r.step now).1.simulation.alpha
  ticks := (r.step now).1.simulation.ticks
  stopped := (r.step now).1.stopped
  remaining := (r.step now).1.remaining

def readings (r : LayoutRun) : List Operation → List Reading
  | [] => []
  | .step now :: ops => r.reading now :: (r.step now).1.readings ops
  | .resize viewport :: ops => (r.resize viewport).readings ops

@[simp] theorem after_concat (r : LayoutRun) (ops : List Operation) (op : Operation) :
    r.after (ops ++ [op]) = (r.after ops).perform op := by
  rw [after, List.foldl_append]
  rfl

/-- A frame moves the particles, ends the run, or changes nothing. -/
theorem step_cases (r : LayoutRun) (now : Instant) :
    (r.stopped = false ∧ r.remaining now ≠ 0 ∧
        r.step now = ({ r with simulation := r.simulation.tick }, true)) ∨
      (r.stopped = false ∧ r.remaining now = 0 ∧ r.step now = ({ r with stopped := true }, false)) ∨
      ((r.stopped = false → r.remaining now ≠ 0) ∧ r.step now = (r, false)) := by
  simp only [remaining, step, ne_eq, Nat.sub_eq_zero_iff_le]
  cases r.stopped with
  | true => exact Or.inr (Or.inr ⟨nofun, rfl⟩)
  | false =>
    by_cases hover : r.autoStop ≤ now.since r.startedAt
    · simp [hover]
    · cases r.simulation.isSettled <;> simp [hover]

/-- Runs that go by one schedule: they differ at most in their particles, in the links between these
and in what they are gathered around. -/
structure InStep (r s : LayoutRun) : Prop where
  alpha_eq : r.simulation.alpha = s.simulation.alpha
  ticks_eq : r.simulation.ticks = s.simulation.ticks
  forces_eq : r.simulation.forces = s.simulation.forces
  startedAt_eq : r.startedAt = s.startedAt
  autoStop_eq : r.autoStop = s.autoStop
  stopped_eq : r.stopped = s.stopped

theorem InStep.refl (r : LayoutRun) : InStep r r :=
  ⟨rfl, rfl, rfl, rfl, rfl, rfl⟩

theorem InStep.resize (r s : LayoutRun) (h : InStep r s) (viewport : Point) :
    InStep (r.resize viewport) s :=
  ⟨h.alpha_eq, h.ticks_eq, h.forces_eq, h.startedAt_eq, h.autoStop_eq, h.stopped_eq⟩

theorem InStep.remaining_eq (r s : LayoutRun) (h : InStep r s) : r.remaining = s.remaining := by
  funext now
  rw [remaining, remaining, h.autoStop_eq, h.startedAt_eq]

theorem InStep.tick (r s : LayoutRun) (h : InStep r s) :
    InStep { r with simulation := r.simulation.tick } { s with simulation := s.simulation.tick } where
  alpha_eq := by simp only [Simulation.tick, h.alpha_eq, h.forces_eq]
  ticks_eq := congrArg (· + 1) h.ticks_eq
  forces_eq := h.forces_eq
  startedAt_eq := h.startedAt_eq
  autoStop_eq := h.autoStop_eq
  stopped_eq := h.stopped_eq

theorem InStep.step (r s : LayoutRun) (h : InStep r s) (now : Instant) :
    InStep (r.step now).1 (s.step now).1 ∧ (r.step now).2 = (s.step now).2 := by
  have hsettled : r.simulation.isSettled = s.simulation.isSettled := by
    rw [Simulation.isSettled, Simulation.isSettled, h.alpha_eq, h.forces_eq]
  rw [LayoutRun.step, LayoutRun.step, hsettled, h.stopped_eq, h.startedAt_eq, h.autoStop_eq]
  split
  · exact ⟨h, rfl⟩
  · split
    · exact ⟨⟨h.alpha_eq, h.ticks_eq, h.forces_eq, rfl, rfl, rfl⟩, rfl⟩
    · split
      · exact ⟨h, rfl⟩
      · have ht := h.tick r s
        exact ⟨⟨ht.alpha_eq, ht.ticks_eq, ht.forces_eq, rfl, rfl, rfl⟩, rfl⟩

theorem InStep.reading_eq (r s : LayoutRun) (h : InStep r s) (now : Instant) :
    r.reading now = s.reading now := by
  obtain ⟨hn, hm⟩ := h.step r s now
  rw [reading, reading, hm, hn.alpha_eq, hn.ticks_eq, hn.stopped_eq, hn.remaining_eq]

theorem InStep.readings_eq (r s : LayoutRun) (h : InStep r s) (ops : List Operation) :
    r.readings ops = s.readings ((instants ops).map .step) := by
  induction ops generalizing r s with
  | nil => rfl
  | cons op ops ih =>
    cases op with
    | step now =>
      rw [readings, h.reading_eq r s now, ih _ _ (h.step r s now).1]
      rfl
    | resize viewport => exact ih _ _ (h.resize r s viewport)

theorem ticks_step (r : LayoutRun) (now : Instant) :
    (r.step now).1.simulation.ticks = r.simulation.ticks + (r.step now).2.toNat := by
  rcases step_cases r now with ⟨_, _, he⟩ | ⟨_, _, he⟩ | ⟨_, he⟩ <;> rw [he]
  · rfl
  · rfl
  · rfl

theorem ticks_after (r : LayoutRun) (ops : List Operation) :
    (r.after ops).simulation.ticks =
      r.simulation.ticks + (r.readings ops).countP Reading.moved := by
  induction ops generalizing r with
  | nil => rfl
  | cons op ops ih =>
    cases op with
    | step now =>
      have hcount : (if (r.reading now).moved = true then 1 else 0) = (r.step now).2.toNat := by
        cases hm : (r.step now).2 <;> simp [reading, hm]
      have hn := ih (r.step now).1
      rw [ticks_step] at hn
      rw [readings, List.countP_cons, hcount]
      exact hn.trans (by omega)
    | resize viewport => exact ih (r.resize viewport)

theorem stopped_step_iff (r : LayoutRun) (h : r.stopped = false) (now : Instant) :
    (r.step now).1.stopped = true ↔ r.remaining now = 0 := by
  rcases step_cases r now with ⟨_, hr, he⟩ | ⟨_, hr, he⟩ | ⟨hr, he⟩ <;> rw [he]
  · simp [h, hr]
  · simp [hr]
  · simp [h, hr h]

theorem perform_of_stopped (r : LayoutRun) (h : r.stopped = true) (op : Operation) :
    r.perform op =
      { r with simulation := r.simulation.setCenter (r.perform op).simulation.center } := by
  cases op with
  | step now =>
    rw [perform, step, if_pos h]
    rfl
  | resize viewport => rfl

/-- A run that has stopped keeps everything but the point it is gathered around. -/
theorem after_of_stopped (r : LayoutRun) (h : r.stopped = true) (ops : List Operation) :
    r.after ops =
      { r with simulation := r.simulation.setCenter (r.after ops).simulation.center } := by
  induction ops using List.reverseRecOn with
  | nil => rfl
  | append_singleton ops op ih =>
    have hs : (r.after ops).stopped = true := by
      rw [ih]
      exact h
    rw [after_concat, perform_of_stopped _ hs, ih]
    rfl

/-- Resizes do not show in the readings of the frames, however the instants are ordered. The ticks
are the frames that moved something, a run stops in the first frame with no time left, and from then
on nothing but its center ever changes. -/
theorem readings_of_instants (r : LayoutRun) (ops ops' : List Operation)
    (h : instants ops = instants ops') :
    r.readings ops = r.readings ops' ∧
      (r.after ops).simulation.ticks =
        r.simulation.ticks + (r.readings ops).countP Reading.moved ∧
      (∀ nodeCount endpoints forces center autoStop now,
        r = start (.start nodeCount endpoints forces center) autoStop now →
          (r.after ops).simulation.ticks = (r.readings ops).countP Reading.moved) ∧
      (∀ now, (r.after ops).stopped = false →
        (((r.after ops).step now).1.stopped = true ↔ (r.after ops).remaining now = 0)) ∧
      ((r.after ops).stopped = true → ∀ more,
        (r.after ops).after more = { r.after ops with
          simulation := (r.after ops).simulation.setCenter
            ((r.after ops).after more).simulation.center }) := by
  refine ⟨?_, ticks_after r ops, ?_, fun now hs => stopped_step_iff _ hs now,
    fun hs more => after_of_stopped _ hs more⟩
  · have hr := InStep.refl r
    rw [hr.readings_eq r r ops, h, ← hr.readings_eq r r ops']
  · rintro nodeCount endpoints forces center autoStop now rfl
    rw [ticks_after]
    exact Nat.zero_add _

def brief : LayoutRun :=
  start (.start 2 [(0, 1)] { Forces.default with alphaDecay := 0.02 } ⟨400, 300⟩) 3000000000 0

/-- The second frame is earlier than the start, and one that comes after the end has an instant long
before it. -/
theorem readings_of_instants_brief :
    let ops : List Operation := [.step 16000000, .resize ⟨1000, 200⟩, .step (-5), .step 3000000000]
    let ops' : List Operation := [.step 16000000, .step (-5), .step 3000000000, .resize ⟨7, 7⟩]
    instants ops = instants ops' ∧ brief.readings ops = brief.readings ops' ∧
      (brief.after ops).simulation.ticks = (brief.readings ops).countP Reading.moved ∧
      (brief.after ops).simulation.ticks = 2 ∧ (brief.after ops).stopped = true ∧
      ((brief.after ops).after [.step 20, .resize ⟨9, 9⟩]).simulation.ticks = 2 := by
  intro ops ops'
  have hi : instants ops = instants ops' := rfl
  obtain ⟨hr, _, ht, _, hs⟩ := readings_of_instants brief ops ops' hi
  have htwo : (brief.after ops).simulation.ticks = 2 := by decide +kernel
  have hstop : (brief.after ops).stopped = true := by decide +kernel
  refine ⟨hi, hr, ht _ _ _ _ _ _ rfl, htwo, hstop, ?_⟩
  rw [hs hstop]
  exact htwo

end CodeAtlas.LayoutRun
