import CodeAtlas.Proofs.Explorer.MenuClick
import CodeAtlas.Proofs.Explorer.Noninterference
import CodeAtlas.Proofs.View.Pointing

namespace CodeAtlas

namespace Window

/-- Highlighting is left to the canvas. -/
def Step.isPlain : Step → Bool
  | .publish event => !event.isMark
  | _ => true

def Step.isFrame : Step → Bool
  | .frame _ _ => true
  | _ => false

/-- The view is in order, and once all that waits has been handled it highlights the node that the
canvas has under the pointer. -/
structure Tracks (w : Window) : Prop where
  indexed : w.explorer.graph.Indexed
  resolved : w.explorer.graph.Resolved
  coherent : w.explorer.view.Coherent w.explorer.graph
  hovered_eq : w.queue.pending.foldl (Event.marked w.explorer.graph) w.explorer.view.highlighted =
    w.canvas.hovered

end Window

namespace Explorer

theorem highlighted_handle (e : Explorer) (now : Instant) (event : Event) :
    (e.handle now event).view.highlighted = event.marked e.graph e.view.highlighted := by
  obtain ⟨detail, h⟩ := act_cases e (.handle event now)
  rw [act] at h
  rw [h]
  cases event with
  | highlightNode id =>
    change (e.view.highlight e.graph id).1.highlighted = _
    rw [View.highlight, Event.marked]
    cases e.graph.indexOf? id <;> rfl
  | recenterNode id origin =>
    exact View.highlighted_of_marks_eq _ _ (e.view.marks_recenter e.graph e.run.positions id now)
  | resetHighlight | showFunctionDetail | closeDetail | searchChanged | viewportResized
  | layoutStopped | mappingLoaded | mappingFailed => rfl

theorem coherent_act (e : Explorer) (hg : e.graph.Resolved) (hv : e.view.Coherent e.graph)
    (a : Action) : (e.act a).view.Coherent (e.act a).graph := by
  obtain ⟨detail, h⟩ := act_cases e a
  rw [h]
  exact hv.run e.graph hg _ _

theorem highlighted_dispatch (e : Explorer) (now : Instant) (events : List Event) :
    (events.foldl (handle now) e).view.highlighted =
      events.foldl (Event.marked e.graph) e.view.highlighted := by
  induction events generalizing e with
  | nil => rfl
  | cons event events ih =>
    have hg := (handle_frame e event now).2.1
    rw [List.foldl_cons, List.foldl_cons, ih, hg, highlighted_handle]

theorem camera_handle_of_mark (e : Explorer) (now : Instant) (event : Event)
    (h : event.isMark = true) : (e.handle now event).view.camera = e.view.camera := by
  cases event with
  | highlightNode id =>
    change (e.view.highlight e.graph id).1.camera = e.view.camera
    rw [View.highlight]
    cases e.graph.indexOf? id <;> rfl
  | resetHighlight => rfl
  | recenterNode | showFunctionDetail | closeDetail | searchChanged | viewportResized
  | layoutStopped | mappingLoaded | mappingFailed => cases h

end Explorer

namespace Window

@[simp] theorem graph_step (w : Window) (s : Step) :
    (w.step s).explorer.graph = w.explorer.graph := by
  cases s with
  | publish event => rfl
  | advance now => rfl
  | activate id => rfl
  | frame area touch => rfl
  | deliver now =>
    rw [step]
    split
    · rfl
    · exact (w.explorer.handle_frame _ now).2.1

theorem canvas_step (w : Window) (s : Step) (h : s.isFrame = false) :
    (w.step s).canvas = w.canvas := by
  cases s with
  | publish event => rfl
  | advance now => rfl
  | activate id => rfl
  | frame area touch => cases h
  | deliver now =>
    rw [step]
    split <;> rfl

theorem Tracks.publish (w : Window) (hw : w.Tracks) (events : List Event)
    (h : ∀ event ∈ events, event.isMark = false) :
    Tracks { w with queue := events.foldl EventQueue.publish w.queue } where
  indexed := hw.indexed
  resolved := hw.resolved
  coherent := hw.coherent
  hovered_eq := by
    dsimp only
    rw [Explorer.pending_foldl_publish, List.foldl_append, hw.hovered_eq,
      Event.foldl_marked_of_plain _ _ _ h]

theorem Tracks.deliver (w : Window) (hw : w.Tracks) (now : Instant) :
    (w.step (.deliver now)).Tracks := by
  have hh := hw.hovered_eq
  rw [step, EventQueue.take?]
  cases hp : w.queue.pending with
  | nil => exact hw
  | cons event rest =>
    have hg := (w.explorer.handle_frame event now).2.1
    rw [hp, List.foldl_cons, ← Explorer.highlighted_handle w.explorer now] at hh
    refine ⟨?_, ?_, w.explorer.coherent_act hw.resolved hw.coherent (.handle event now), ?_⟩
    · exact hg ▸ hw.indexed
    · exact hg ▸ hw.resolved
    · exact hg ▸ hh

def found? (w : Window) (area : Area) (touch : Touch) : Option Nat :=
  Canvas.found? w.explorer.graph w.explorer.run.positions area touch w.explorer.view

theorem publishes_eq (w : Window) (area : Area) (touch : Touch) :
    w.publishes area touch =
      Canvas.resizeEvents w.explorer.view.viewport area.size ++
        Canvas.hoverEvents w.explorer.graph w.canvas.hovered (w.found? area touch) ++
        Canvas.clickEvents w.explorer.graph (w.found? area touch) touch.clicked :=
  rfl

theorem Tracks.frame (w : Window) (hw : w.Tracks) (area : Area) (touch : Touch) :
    (w.step (.frame area touch)).Tracks := by
  have hm : (w.step (.frame area touch)).explorer.view.marks = w.explorer.view.marks :=
    Canvas.marks_moveView area touch w.explorer.view
  refine ⟨hw.indexed, hw.resolved, hw.coherent.of_marks_eq _ _ _ hm, ?_⟩
  have hh := View.highlighted_of_marks_eq _ _ hm
  have hovered : (w.step (.frame area touch)).canvas.hovered = w.found? area touch := rfl
  have hfound : ∀ k, w.found? area touch = some k → k < w.explorer.graph.nodeCount :=
    Canvas.found?_lt w.explorer.graph _ area touch w.explorer.view hw.coherent
  have hqueue : (w.step (.frame area touch)).queue.pending =
      w.queue.pending ++ w.publishes area touch := Explorer.pending_foldl_publish _ _
  -- what waited leads to the node before, and what the frame adds leads on from there
  rw [hovered, hqueue, hh, graph_step, List.foldl_append, hw.hovered_eq, publishes_eq,
    List.foldl_append, List.foldl_append,
    Event.foldl_marked_of_plain _ _ _ (Canvas.isMark_resizeEvents _ _),
    Event.foldl_marked_of_plain _ _ _ (Canvas.isMark_clickEvents _ _ _)]
  exact Canvas.foldl_marked_hoverEvents _ hw.indexed _ _ hfound

theorem Tracks.step (w : Window) (hw : w.Tracks) (s : Step) (hs : s.isPlain = true) :
    (w.step s).Tracks := by
  cases s with
  | publish event =>
    apply hw.publish w [event]
    intro other ho
    rw [List.mem_singleton.mp ho]
    simpa [Step.isPlain] using hs
  | advance now =>
    have hm := w.explorer.view.marks_advance now
    have hplain : ∀ event ∈ (w.explorer.advance now).2, event.isMark = false := by
      intro event he
      rw [Explorer.advance] at he
      dsimp only at he
      split at he
      · rw [List.mem_singleton.mp he]
        rfl
      · exact absurd he List.not_mem_nil
    apply Tracks.publish ⟨(w.explorer.advance now).1, w.canvas, w.queue⟩ _ _ hplain
    refine ⟨hw.indexed, hw.resolved, hw.coherent.of_marks_eq _ _ _ hm, ?_⟩
    rw [← hw.hovered_eq]
    exact congrArg (w.queue.pending.foldl (Event.marked w.explorer.graph))
      (View.highlighted_of_marks_eq _ _ hm)
  | activate id => exact ⟨hw.indexed, hw.resolved, hw.coherent, hw.hovered_eq⟩
  | frame area touch => exact hw.frame w area touch
  | deliver now => exact hw.deliver w now

theorem Tracks.after (w : Window) (hw : w.Tracks) (steps : List Step)
    (h : ∀ s ∈ steps, s.isPlain = true) : (w.after steps).Tracks := by
  induction steps generalizing w with
  | nil => exact hw
  | cons s steps ih =>
    apply ih (w.step s) (hw.step w s (h s List.mem_cons_self))
    exact fun t ht => h t (List.mem_cons_of_mem s ht)

@[simp] theorem graph_after (w : Window) (steps : List Step) :
    (w.after steps).explorer.graph = w.explorer.graph := by
  induction steps generalizing w with
  | nil => rfl
  | cons s steps ih => exact (ih (w.step s)).trans (w.graph_step s)

theorem canvas_after (w : Window) (steps : List Step) (h : ∀ s ∈ steps, s.isFrame = false) :
    (w.after steps).canvas = w.canvas := by
  induction steps generalizing w with
  | nil => rfl
  | cons s steps ih =>
    have hrest := ih (w.step s) fun t ht => h t (List.mem_cons_of_mem s ht)
    exact hrest.trans (w.canvas_step s (h s List.mem_cons_self))

theorem tracks_opened (c : Codebase) (layout : LayoutSettings) (viewport : Point) (now : Instant)
    (e : Explorer) (h : Explorer.start c layout viewport now = .ok e) (run : LayoutRun) :
    (opened { e with run := run }).Tracks := by
  obtain ⟨hs, _, hv, _⟩ := Explorer.start_eq_ok c layout viewport now e h
  refine ⟨?_, ?_, ?_, ?_⟩
  · exact hs.graph_eq ▸ Graph.indexed_ofCodebase c
  · exact hs.graph_eq ▸ Graph.resolved_grown (Graph.steps c)
  · change e.view.Coherent e.graph
    rw [hv]
    exact View.coherent_ofGraph e.graph viewport
  · change e.view.highlighted = none
    rw [hv]
    rfl

theorem Tracks.highlighted_eq (w : Window) (hw : w.Tracks)
    (h : ∀ event ∈ w.queue.pending, event.isMark = false) :
    w.explorer.view.highlighted = w.canvas.hovered := by
  rw [← hw.hovered_eq, Event.foldl_marked_of_plain _ _ _ h]

/-- The node that one window has found is found again in another one that highlights it. -/
theorem Tracks.found?_again (w w' : Window) (hw : w.Tracks) (hw' : w'.Tracks) (area area' : Area)
    (touch touch' : Touch) (hpending : ∀ event ∈ w'.queue.pending, event.isMark = false)
    (hg : w'.explorer.graph = w.explorer.graph)
    (hpositions : w'.explorer.run.positions = w.explorer.run.positions)
    (hfound : w.found? area touch = w'.canvas.hovered)
    (hpointer : touch'.within area' = touch.within area)
    (hcamera : w'.explorer.view.camera =
      (w.step (.frame area touch)).explorer.view.camera)
    (hidle : touch'.IsIdle) :
    w'.found? area' touch' = w'.canvas.hovered := by
  have hv := hw'.coherent
  rw [hg] at hv
  rw [← hw'.highlighted_eq w' hpending] at hfound ⊢
  rw [found?, hg, hpositions]
  exact Canvas.found?_eq_highlighted w.explorer.graph _ area area' touch touch' w.explorer.view
    w'.explorer.view hw.coherent hv hpointer hcamera hidle hfound

theorem isMark_publishes_of_found (w : Window) (area : Area) (touch : Touch)
    (h : w.found? area touch = w.canvas.hovered) :
    ∀ event ∈ w.publishes area touch, event.isMark = false := by
  rw [publishes_eq, h, Canvas.hoverEvents_self, List.append_nil]
  intro event he
  rcases List.mem_append.mp he with he | he
  · exact Canvas.isMark_resizeEvents _ _ event he
  · exact Canvas.isMark_clickEvents _ _ _ event he

/-- Wherever the nodes lie, whatever the pointer does and whatever else happens, as long as only the
canvas speaks about highlighting, the highlighted node is the one under the pointer once all that
waits is handled. If then a further frame without wheel, pinch and drag finds the pointer, the nodes
and the camera where an earlier one had them, it has nothing to tell: raising the node under the
pointer does not put another one there. -/
theorem highlight_follows_pointer (c : Codebase) (layout : LayoutSettings) (viewport : Point)
    (start : Instant) (e : Explorer) (h : Explorer.start c layout viewport start = .ok e)
    (run : LayoutRun) (steps : List Step) (hsteps : ∀ s ∈ steps, s.isPlain = true) :
    let w := (opened { e with run := run }).after steps
    (∀ now, (w.queue.dispatch (Explorer.handle now) w.explorer).1.view.highlighted =
        w.canvas.hovered) ∧
      ((∀ event ∈ w.queue.pending, event.isMark = false) →
        w.explorer.view.highlighted = w.canvas.hovered) ∧
      ∀ area touch rest, (∀ s ∈ rest, s.isPlain = true ∧ s.isFrame = false) →
        let w₁ := w.step (.frame area touch)
        let w₂ := w₁.after rest
        (∀ event ∈ w₂.queue.pending, event.isMark = false) →
        ∀ area' touch', touch'.within area' = touch.within area →
          w₂.explorer.run.positions = w.explorer.run.positions →
          w₂.explorer.view.camera = w₁.explorer.view.camera →
          touch'.IsIdle →
          ∀ event ∈ w₂.publishes area' touch', event.isMark = false := by
  intro w
  have hw : w.Tracks := (tracks_opened c layout viewport start e h run).after _ steps hsteps
  refine ⟨fun now => ?_, hw.highlighted_eq w, ?_⟩
  · rw [EventQueue.dispatch, Explorer.highlighted_dispatch, hw.hovered_eq]
  · intro area touch rest hrest w₁ w₂ hpending area' touch' hpointer hpositions hcamera hidle
    have hw₂ : w₂.Tracks :=
      (hw.frame w area touch).after w₁ rest fun s hs => (hrest s hs).1
    have hcanvas : w₂.canvas = w₁.canvas := w₁.canvas_after rest fun s hs => (hrest s hs).2
    have hg : w₂.explorer.graph = w.explorer.graph :=
      (w₁.graph_after rest).trans (w.graph_step (.frame area touch))
    have hfound : w.found? area touch = w₂.canvas.hovered := by
      rw [hcanvas]
      rfl
    have hagain := hw.found?_again w w₂ hw₂ area area' touch touch' hpending hg hpositions hfound
      hpointer hcamera hidle
    exact w₂.isMark_publishes_of_found area' touch' hagain

/-- The first two nodes lie on each other, the third apart from them. -/
def piled (run : LayoutRun) : LayoutRun :=
  { run with simulation := { run.simulation with
      particles := #[.still ⟨0, 0⟩, .still ⟨0, 0⟩, .still ⟨900, 0⟩] } }

def desk : Area := .ofSize ⟨0, 0⟩ ⟨800, 600⟩

def resting : Touch := ⟨some ⟨400, 300⟩, 0, 1, none, false⟩

theorem highlight_follows_pointer_paused :
    ∃ e, Explorer.start Graph.shared .default ⟨800, 600⟩ 0 = .ok e ∧
      let w := (opened { e with run := piled e.run }).after
        [.publish (.recenterNode "a" .sidebar), .deliver 7]
      let w₁ := w.step (.frame desk resting)
      let w₂ := w₁.after [.deliver 8]
      w.explorer.view.selected = some 0 ∧ w.explorer.view.highlighted = w.canvas.hovered ∧
        (w₁.canvas.hovered = some 1 ∧ w₂.explorer.view.highlighted = some 1) ∧
        (w₂.queue.pending = [] ∧ w₂.explorer.run.positions = w.explorer.run.positions ∧
          w₂.explorer.view.camera = w₁.explorer.view.camera ∧ resting.IsIdle) ∧
        ∀ event ∈ w₂.publishes desk resting, event.isMark = false := by
  obtain ⟨e, he⟩ := Explorer.exists_start_default Graph.shared ⟨800, 600⟩ 0
  obtain ⟨_, hlight, hfurther⟩ := highlight_follows_pointer _ _ _ _ e he (piled e.run)
    [.publish (.recenterNode "a" .sidebar), .deliver 7] (by decide)
  refine ⟨e, he, ?_⟩
  intro w w₁ w₂
  have hrun : w.explorer.view.selected = some 0 ∧ w₁.canvas.hovered = some 1 ∧
      w₂.explorer.view.highlighted = some 1 ∧ w₁.queue.pending.map Event.isMark = [true] := by
    have h : (Explorer.start Graph.shared .default ⟨800, 600⟩ 0).toOption.map (fun e =>
        let w := (opened { e with run := piled e.run }).after
          [.publish (.recenterNode "a" .sidebar), .deliver 7]
        let w₁ := w.step (.frame desk resting)
        let w₂ := w₁.after [.deliver 8]
        (w.explorer.view.selected, w₁.canvas.hovered, w₂.explorer.view.highlighted,
          w₁.queue.pending.map Event.isMark)) = some (some 0, some 1, some 1, [true]) := by
      decide +kernel
    rw [he] at h
    simpa only [Except.toOption, Option.map_some, Option.some.injEq, Prod.mk.injEq] using h
  obtain ⟨hselected, hhovered, hhighlighted, hmarks⟩ := hrun
  obtain ⟨event, hqueue, hmark⟩ := List.map_eq_singleton_iff.mp hmarks
  have hw₂ : w₂ = { w₁ with explorer := w₁.explorer.handle 8 event, queue := .empty } := by
    change w₁.step (.deliver 8) = _
    rw [step, EventQueue.take?, hqueue]
    rfl
  have hpending : w₂.queue.pending = [] := by
    rw [hw₂]
    rfl
  have hpositions : w₂.explorer.run.positions = w.explorer.run.positions := by
    rw [hw₂]
    exact (w₁.explorer.handle_frame event 8).2.2.2
  have hcamera : w₂.explorer.view.camera = w₁.explorer.view.camera := by
    rw [hw₂]
    exact w₁.explorer.camera_handle_of_mark 8 event hmark
  have hidle : resting.IsIdle := ⟨by decide +kernel, rfl, rfl⟩
  have hnone : ∀ event ∈ ([] : List Event), event.isMark = false :=
    fun _ h => absurd h List.not_mem_nil
  refine ⟨hselected, hlight hnone, ⟨hhovered, hhighlighted⟩,
    ⟨hpending, hpositions, hcamera, hidle⟩, ?_⟩
  exact hfurther desk resting [.deliver 8] (by decide) (hpending ▸ hnone) desk resting rfl
    hpositions hcamera hidle

end Window

end CodeAtlas
