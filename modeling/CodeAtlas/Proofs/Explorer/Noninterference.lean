import CodeAtlas.Proofs.Explorer.Actions
import CodeAtlas.Proofs.Graph.Forest
import CodeAtlas.Proofs.Layout.Schedule

namespace CodeAtlas

namespace LayoutRun

def notices (r : LayoutRun) (op : Operation) : List Event :=
  if !r.stopped && (r.perform op).stopped then [.layoutStopped (r.perform op).simulation.ticks]
  else []

/-- The states that a run goes through, with what is told on the way. -/
def trace (r : LayoutRun) : List Operation → List (LayoutRun × List Event)
  | [] => []
  | op :: ops => (r.perform op, r.notices op) :: (r.perform op).trace ops

end LayoutRun

namespace Explorer

def Action.layout? : Action → Option LayoutRun.Operation
  | .handle (.viewportResized width height) _ => some (.resize ⟨width, height⟩)
  | .advance now => some (.step now)
  | _ => none

def layoutPart (actions : List Action) : List LayoutRun.Operation :=
  actions.filterMap Action.layout?

def publishes (e : Explorer) : Action → List Event
  | .advance now => (e.advance now).2
  | _ => []

def published (e : Explorer) : List Action → List Event
  | [] => []
  | a :: actions => e.publishes a ++ (e.act a).published actions

def layoutTrace (e : Explorer) : List Action → List (LayoutRun × List Event)
  | [] => []
  | a :: actions =>
    if a.layout?.isSome then ((e.act a).run, e.publishes a) :: (e.act a).layoutTrace actions
    else (e.act a).layoutTrace actions

theorem Action.onRun_eq (r : LayoutRun) (a : Action) :
    a.onRun r = (a.layout?.map r.perform).getD r := by
  cases a with
  | advance now => rfl
  | activate id => rfl
  | handle event now => cases event <;> rfl

theorem run_act (e : Explorer) (a : Action) :
    (e.act a).run = (a.layout?.map e.run.perform).getD e.run := by
  obtain ⟨detail, h⟩ := act_cases e a
  rw [h]
  exact a.onRun_eq e.run

theorem publishes_eq (e : Explorer) (a : Action) :
    e.publishes a = (a.layout?.map e.run.notices).getD [] := by
  cases a with
  | advance now => rfl
  | activate id => rfl
  | handle event now =>
    cases event with
    | viewportResized width height =>
      change [] = e.run.notices (.resize ⟨width, height⟩)
      cases hs : e.run.stopped <;>
        simp [LayoutRun.notices, LayoutRun.perform, LayoutRun.resize, hs]
    | highlightNode | resetHighlight | recenterNode | showFunctionDetail | closeDetail
    | searchChanged | layoutStopped | mappingLoaded | mappingFailed => rfl

theorem layoutPart_cons (a : Action) (actions : List Action) :
    layoutPart (a :: actions) = a.layout?.toList ++ layoutPart actions := by
  rw [layoutPart, List.filterMap_cons]
  cases a.layout? <;> rfl

theorem run_after (e : Explorer) (actions : List Action) :
    (e.after actions).run = e.run.after (layoutPart actions) := by
  induction actions generalizing e with
  | nil => rfl
  | cons a actions ih =>
    change ((e.act a).after actions).run = _
    rw [ih, run_act, layoutPart_cons]
    cases a.layout? <;> rfl

/-- The layout goes its own way: what it does is told by the frames and resizes alone. -/
theorem layoutTrace_eq (e : Explorer) (actions : List Action) :
    e.layoutTrace actions = e.run.trace (layoutPart actions) := by
  induction actions generalizing e with
  | nil => rfl
  | cons a actions ih =>
    rw [layoutTrace, ih, run_act, publishes_eq, layoutPart_cons]
    cases a.layout? <;> rfl

theorem published_eq (e : Explorer) (actions : List Action) :
    e.published actions = (e.run.trace (layoutPart actions)).flatMap Prod.snd := by
  induction actions generalizing e with
  | nil => rfl
  | cons a actions ih =>
    rw [published, ih, run_act, publishes_eq, layoutPart_cons]
    cases a.layout? <;> rfl

theorem handle_frame (e : Explorer) (event : Event) (now : Instant) :
    (e.handle now event).codebase = e.codebase ∧ (e.handle now event).graph = e.graph ∧
      (e.handle now event).palette = e.palette ∧
      (e.handle now event).run.positions = e.run.positions := by
  obtain ⟨detail, h⟩ := act_cases e (.handle event now)
  rw [act] at h
  rw [h]
  refine ⟨rfl, rfl, rfl, ?_⟩
  cases event <;> rfl

/-- Two runs of a viewer with the same frames and the same resizes go through the same layouts and
publish the same events, whatever else happens in either of them and whenever it does. No event
changes the codebase, the graph, the palette or where a node is. -/
theorem layout_noninterference (e : Explorer) (as bs : List Action)
    (h : layoutPart as = layoutPart bs) :
    e.layoutTrace as = e.layoutTrace bs ∧ (e.after as).run = (e.after bs).run ∧
      e.published as = e.published bs ∧
      ∀ (s : Explorer) (event : Event) (now : Instant),
        (s.handle now event).codebase = s.codebase ∧ (s.handle now event).graph = s.graph ∧
          (s.handle now event).palette = s.palette ∧
          (s.handle now event).run.positions = s.run.positions := by
  refine ⟨?_, ?_, ?_, handle_frame⟩
  · rw [layoutTrace_eq, h, ← layoutTrace_eq]
  · rw [run_after, h, ← run_after]
  · rw [published_eq, h, ← published_eq]

/-- Frames at 16 ms and at 3 s with a resize between them, and a user who is busy. -/
def busy : List Action :=
  [.handle (.highlightNode "a") 1, .advance 16000000, .handle (.recenterNode "a/g" .graph) 17000000,
    .handle (.viewportResized 1000 200) 18000000, .activate 0, .handle .closeDetail 19000000,
    .advance 3000000000, .handle (.layoutStopped 1) 3000000001]

def alone : List Action :=
  [.advance 16000000, .handle (.viewportResized 1000 200) 16000000, .advance 3000000000]

theorem layout_noninterference_busy :
    ∃ e, start Graph.shared .default ⟨800, 600⟩ 0 = .ok e ∧ layoutPart busy = layoutPart alone ∧
      e.layoutTrace busy = e.layoutTrace alone ∧ (e.layoutTrace busy).length = 3 ∧
      (e.after busy).run = (e.after alone).run ∧ e.published busy = e.published alone := by
  obtain ⟨e, he⟩ := exists_start_default Graph.shared ⟨800, 600⟩ 0
  have hpart : layoutPart busy = layoutPart alone := rfl
  obtain ⟨ht, hr, hp, _⟩ := layout_noninterference e busy alone hpart
  exact ⟨e, he, hpart, ht, rfl, hr, hp⟩

end Explorer

end CodeAtlas
