import CodeAtlas.Proofs.View.Emphasis

namespace CodeAtlas.View

theorem advance_of_none (v : View) (h : v.transition = none) (now : Instant) :
    v.advance now = v := by
  rw [advance, h]

theorem advance_of_some (v : View) (t : Transition) (h : v.transition = some t) (now : Instant) :
    v.advance now = if t.progress now ≥ 1 then { v with camera := t.target, transition := none }
      else { v with camera := t.camera now } := by
  rw [advance, h]

/-- A running transition does not read the stored camera. -/
theorem advance_camera (v : View) (h : v.isAnimating = true) (camera : Camera) (now : Instant) :
    { v with camera := camera }.advance now = v.advance now := by
  obtain ⟨t, ht⟩ := Option.isSome_iff_exists.mp h
  rw [advance_of_some v t ht]
  exact advance_of_some { v with camera := camera } t ht now

theorem advance_of_isAnimating (v : View) (now : Instant)
    (h : (v.advance now).isAnimating = true) :
    v.isAnimating = true ∧ ∃ camera, v.advance now = { v with camera := camera } := by
  rcases Option.eq_none_or_eq_some v.transition with ht | ⟨t, ht⟩
  · rw [advance_of_none v ht] at h ⊢
    exact ⟨h, v.camera, rfl⟩
  · rw [advance_of_some v t ht] at h ⊢
    split at h
    · cases h
    · rename_i hp
      rw [if_neg hp]
      exact ⟨h, t.camera now, rfl⟩

theorem advance_sample (v : View) (sample : Instant) (h : (v.advance sample).isAnimating = true)
    (now : Instant) : (v.advance sample).advance now = v.advance now := by
  obtain ⟨hv, camera, hc⟩ := advance_of_isAnimating v sample h
  rw [hc, advance_camera v hv]

theorem advance_samples (v : View) (samples : List Instant)
    (h : ∀ s ∈ samples, (v.advance s).isAnimating = true) (now : Instant) :
    (samples.foldl advance v).advance now = v.advance now := by
  induction samples generalizing v with
  | nil => rfl
  | cons s samples ih =>
    have hs := advance_sample v s (h s List.mem_cons_self)
    rw [List.foldl_cons, ih, hs]
    intro s' hs'
    rw [hs]
    exact h s' (List.mem_cons_of_mem s hs')

theorem advance_advance (v : View) (now : Instant) :
    (v.advance now).advance now = v.advance now := by
  cases h : (v.advance now).transition with
  | none => exact advance_of_none _ h now
  | some t => exact advance_sample v now (Option.isSome_iff_exists.mpr ⟨t, h⟩) now

theorem recenter_congr (v w : View) (g : Graph) (positions : List Point) (id : NodeId)
    (now : Instant) (ht : (target? g positions id).isSome = true)
    (h : w.advance now = v.advance now) :
    w.recenter g positions id now = v.recenter g positions id now := by
  obtain ⟨⟨index, world⟩, ht⟩ := Option.isSome_iff_exists.mp ht
  rw [recenter, recenter, ht]
  dsimp only
  rw [centerOn, centerOn, h]

/-- How often and in which order a running transition is sampled makes no difference, as long as no
sample ends it: a later frame, and a node that is centered later, find the view as if there had been
no samples. Sampling twice at one time is sampling once, also at the time when the transition
ends. -/
theorem samples_leave_no_trace (v : View) (samples : List Instant)
    (h : ∀ s ∈ samples, (v.advance s).isAnimating = true) :
    (∀ now, (samples.foldl advance v).advance now = v.advance now) ∧
      (∀ g positions id i p now, g.indexOf? id = some i → positions[i]? = some p →
        (samples.foldl advance v).recenter g positions id now =
          v.recenter g positions id now) ∧
      ∀ (w : View) (now : Instant), (w.advance now).advance now = w.advance now := by
  refine ⟨advance_samples v samples h, fun g positions id i p now hi hp => ?_, advance_advance⟩
  apply recenter_congr v _ g positions id now _ (advance_samples v samples h now)
  rw [target?, hi, Option.bind_some, hp]
  rfl

theorem samples_leave_no_trace_shuffled :
    let g := Graph.grown tangled
    let positions : List Point := [⟨1, 2⟩, ⟨3, 4⟩, ⟨5, 6⟩]
    let v := ((ofGraph g ⟨800, 600⟩).recenter g positions "c" 0).1
    let w := [700000000, 100000000, -5].foldl advance v
    (v.advance 750000000).isAnimating = false ∧
      w.advance 750000000 = v.advance 750000000 ∧
      w.recenter g positions "a" 600000000 = v.recenter g positions "a" 600000000 := by
  intro g positions v w
  have hs : ∀ s ∈ [700000000, 100000000, -5], (v.advance s).isAnimating = true := by
    decide +kernel
  have hi : g.indexOf? "a" = some 0 := by decide +kernel
  obtain ⟨hadvance, hrecenter, _⟩ := samples_leave_no_trace v _ hs
  exact ⟨by decide +kernel, hadvance _, hrecenter g positions "a" 0 ⟨1, 2⟩ _ hi rfl⟩

structure Step where
  graph : Graph
  operation : Operation

/-- Whether a step moves the view: a drag, a zoom, or a centering that finds its node in place. -/
def Step.moves (s : Step) : Bool :=
  match s.operation with
  | .pan _ => true
  | .zoom _ _ => true
  | .recenter positions id _ => (target? s.graph positions id).isSome
  | _ => false

def take (v : View) (s : Step) : View := v.apply s.graph s.operation

def follow (v : View) (steps : List Step) : View := steps.foldl take v

@[simp] theorem follow_concat (v : View) (steps : List Step) (s : Step) :
    v.follow (steps ++ [s]) = (v.follow steps).take s := by
  rw [follow, List.foldl_append]
  rfl

def motion (v : View) : Point × Camera × Option Transition × Bool :=
  (v.viewport, v.camera, v.transition, v.untouched)

/-- A step starts a transition `t` in the view `v` if it centers a node: from the camera at that
time to the node in the middle of the viewport of that time. -/
def Step.Starts (v : View) (s : Step) (t : Transition) : Prop :=
  ∃ positions id now index world, s.operation = .recenter positions id now ∧
    target? s.graph positions id = some (index, world) ∧
    t = ⟨(v.advance now).camera, .centeredOn world v.viewport 1, now⟩

@[simp] theorem motion_highlight (v : View) (g : Graph) (id : NodeId) :
    (v.highlight g id).1.motion = v.motion := by
  rw [highlight]
  split
  · rfl
  · rfl

/-- What a step can do: nothing to the motion, let time pass, resize, break off, or start a
transition. -/
theorem take_cases (v : View) (s : Step) :
    (s.moves = false ∧ ((v.take s).motion = v.motion ∨ (∃ now, v.take s = v.advance now) ∨
      ∃ viewport, v.take s = v.setViewport viewport)) ∨
    (s.moves = true ∧ (v.take s).untouched = false ∧
      ((v.take s).transition = none ∨ ∃ t, (v.take s).transition = some t ∧ s.Starts v t)) := by
  obtain ⟨g, op⟩ := s
  cases op with
  | setViewport viewport => exact Or.inl ⟨rfl, Or.inr (Or.inr ⟨viewport, rfl⟩)⟩
  | advance now => exact Or.inl ⟨rfl, Or.inr (Or.inl ⟨now, rfl⟩)⟩
  | pan delta => exact Or.inr ⟨rfl, rfl, Or.inl rfl⟩
  | zoom anchor factor => exact Or.inr ⟨rfl, rfl, Or.inl rfl⟩
  | highlight id => exact Or.inl ⟨rfl, Or.inl (motion_highlight v g id)⟩
  | resetHighlight => exact Or.inl ⟨rfl, Or.inl rfl⟩
  | recenter positions id now =>
    cases ht : target? g positions id with
    | none =>
      refine Or.inl ⟨?_, Or.inl ?_⟩
      · simp only [Step.moves, ht, Option.isSome_none]
      · simp only [take, apply, recenter, ht]
    | some place =>
      obtain ⟨index, world⟩ := place
      have hv : v.take ⟨g, .recenter positions id now⟩ = v.centerOn index world now := by
        simp only [take, apply, recenter, ht]
      refine Or.inr ⟨?_, ?_, Or.inr ⟨_, ?_, positions, id, now, index, world, rfl, ht, rfl⟩⟩
      · simp only [Step.moves, ht, Option.isSome_some]
      · rw [hv, centerOn]
      · rw [hv, centerOn]
        obtain ⟨_, _, ha⟩ := advance_cases v now
        rw [ha]

def StartedBy (v : View) (steps : List Step) (t : Transition) : Prop :=
  ∃ before s after, steps = before ++ s :: after ∧ (∀ s' ∈ after, s'.moves = false) ∧
    s.Starts (v.follow before) t

theorem StartedBy.concat (v : View) (steps : List Step) (t : Transition) (s : Step)
    (hs : s.moves = false) (h : v.StartedBy steps t) : v.StartedBy (steps ++ [s]) t := by
  obtain ⟨before, s₀, after, rfl, hafter, hstarts⟩ := h
  refine ⟨before, s₀, after ++ [s], by simp, ?_, hstarts⟩
  intro s' h'
  rcases List.mem_append.mp h' with h' | h'
  · exact hafter s' h'
  · rw [List.mem_singleton.mp h', hs]

theorem startedBy_last (v : View) (steps : List Step) (t : Transition) (s : Step)
    (h : s.Starts (v.follow steps) t) : v.StartedBy (steps ++ [s]) t := by
  refine ⟨steps, s, [], rfl, ?_, h⟩
  rintro s' ⟨⟩

/-- Nothing is on its way, and the origin is in the middle of the viewport. -/
structure AtRest (v : View) : Prop where
  transition_eq : v.transition = none
  camera_eq : v.camera = .initial v.viewport

theorem transition_advance (v : View) (now : Instant) (t : Transition)
    (h : (v.advance now).transition = some t) : v.transition = some t := by
  have hs : (v.advance now).isAnimating = true := Option.isSome_iff_exists.mpr ⟨t, h⟩
  obtain ⟨_, camera, hc⟩ := advance_of_isAnimating v now hs
  rw [hc] at h
  exact h

/-- Without a movement the view stays as untouched as it is, an untouched view stays at rest, and
no transition is started. -/
theorem take_of_not_moves (v : View) (s : Step) (hs : s.moves = false) :
    (v.take s).untouched = v.untouched ∧ (v.untouched = true → v.AtRest → (v.take s).AtRest) ∧
      ∀ t, (v.take s).transition = some t → v.transition = some t := by
  rcases take_cases v s with ⟨_, hm | ⟨now, ha⟩ | ⟨viewport, hv⟩⟩ | ⟨hs', _⟩
  · simp only [motion, Prod.mk.injEq] at hm
    obtain ⟨hv, hc, ht, hu⟩ := hm
    refine ⟨hu, fun _ hr => ⟨?_, ?_⟩, fun t h => ?_⟩
    · rw [ht, hr.transition_eq]
    · rw [hc, hv, hr.camera_eq]
    · rw [← ht, h]
  · rw [ha]
    refine ⟨?_, fun _ hr => ?_, transition_advance v now⟩
    · obtain ⟨_, _, h⟩ := advance_cases v now
      rw [h]
    · rw [advance_of_none v hr.transition_eq]
      exact hr
  · rw [hv, setViewport]
    refine ⟨rfl, fun hu hr => ⟨hr.transition_eq, ?_⟩, fun t h => h⟩
    rw [hu]
    rfl
  · rw [hs] at hs'
    cases hs'

structure Remembers (v : View) (steps : List Step) : Prop where
  untouched_eq : (v.follow steps).untouched = !steps.any Step.moves
  atRest : (v.follow steps).untouched = true → (v.follow steps).AtRest
  startedBy : ∀ t, (v.follow steps).transition = some t → v.StartedBy steps t

theorem remembers_nil (g : Graph) (viewport : Point) : (ofGraph g viewport).Remembers [] where
  untouched_eq := rfl
  atRest _ := ⟨rfl, rfl⟩
  startedBy t h := by cases h

theorem Remembers.concat (v : View) (steps : List Step) (h : v.Remembers steps) (s : Step) :
    v.Remembers (steps ++ [s]) := by
  cases hs : s.moves with
  | false =>
    obtain ⟨hu, hr, ht⟩ := take_of_not_moves (v.follow steps) s hs
    rw [← follow_concat] at hu hr ht
    constructor
    · rw [hu, h.untouched_eq]
      simp [hs]
    · intro hc
      rw [hu] at hc
      exact hr hc (h.atRest hc)
    · intro t hc
      exact (h.startedBy t (ht t hc)).concat v steps t s hs
  | true =>
    rcases take_cases (v.follow steps) s with ⟨hs', _⟩ | ⟨_, hu, ht⟩
    · rw [hs] at hs'
      cases hs'
    rw [← follow_concat] at hu ht
    constructor
    · rw [hu]
      simp [hs]
    · intro hc
      rw [hu] at hc
      cases hc
    · intro t hc
      rcases ht with ht | ⟨t', ht, hstarts⟩
      · rw [ht] at hc
        cases hc
      · rw [ht] at hc
        cases hc
        exact startedBy_last v steps t s hstarts

theorem remembers_follow (g : Graph) (viewport : Point) (steps : List Step) :
    (ofGraph g viewport).Remembers steps := by
  induction steps using List.reverseRecOn with
  | nil => exact remembers_nil g viewport
  | append_singleton steps s ih => exact ih.concat _ steps s

/-- Whatever is done to a view: as long as nothing has moved it, no transition runs and the camera
is the initial one of the viewport as it is now; once something has, a new size is recorded and
changes nothing else. A transition runs only if the last movement was to center a node, and leads
to that node in the middle of the viewport of that time. -/
theorem follow_motion (g : Graph) (viewport : Point) (steps : List Step) (v : View)
    (hv : (ofGraph g viewport).follow steps = v) :
    ((∀ s ∈ steps, s.moves = false) →
      v.transition = none ∧ v.camera = .initial v.viewport) ∧
    ((∃ s ∈ steps, s.moves = true) → ∀ p, v.setViewport p = { v with viewport := p }) ∧
    ∀ t, v.transition = some t → (ofGraph g viewport).StartedBy steps t := by
  subst hv
  have h := remembers_follow g viewport steps
  refine ⟨fun hs => ?_, fun hs p => ?_, h.startedBy⟩
  · have hu : ((ofGraph g viewport).follow steps).untouched = true := by
      rw [h.untouched_eq, Bool.not_eq_true', List.any_eq_false]
      exact fun s hm => Bool.eq_false_iff.mp (hs s hm)
    exact ⟨(h.atRest hu).transition_eq, (h.atRest hu).camera_eq⟩
  · have hu : ((ofGraph g viewport).follow steps).untouched = false := by
      rw [h.untouched_eq, Bool.not_eq_false', List.any_eq_true]
      exact hs
    rw [setViewport, hu]
    rfl

/-- A centering that finds no place for its node does not count, neither before the first movement
nor after a centering that does. -/
theorem follow_motion_missed :
    let g := Graph.grown tangled
    let missed : List Step := [⟨g, .recenter [] "c" 0⟩, ⟨g, .setViewport ⟨400, 300⟩⟩]
    let steps := missed ++ [⟨g, .zoom ⟨1, 1⟩ 2⟩, ⟨g, .recenter [⟨1, 2⟩] "a" 0⟩] ++ missed
    let v := (ofGraph g ⟨800, 600⟩).follow missed
    let w := (ofGraph g ⟨800, 600⟩).follow steps
    v.camera = .initial ⟨400, 300⟩ ∧ w.setViewport ⟨800, 600⟩ = { w with viewport := ⟨800, 600⟩ } ∧
      ∃ t, w.transition = some t ∧ (ofGraph g ⟨800, 600⟩).StartedBy steps t := by
  intro g missed steps v w
  have hstill : ∀ s ∈ missed, s.moves = false := by decide +kernel
  have hmoved : ∃ s ∈ steps, s.moves = true := by decide +kernel
  have hruns : w.transition.isSome = true := by decide +kernel
  obtain ⟨t, ht⟩ := Option.isSome_iff_exists.mp hruns
  obtain ⟨hrest, _, _⟩ := follow_motion g ⟨800, 600⟩ missed v rfl
  obtain ⟨_, hsize, hstarted⟩ := follow_motion g ⟨800, 600⟩ steps w rfl
  exact ⟨(hrest hstill).2, hsize hmoved _, t, ht, hstarted t ht⟩

end CodeAtlas.View
