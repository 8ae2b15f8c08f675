import CodeAtlas.Proofs.View.Emphasis
import CodeAtlas.View.Canvas

namespace CodeAtlas

namespace Event

def isMark : Event → Bool
  | .highlightNode _ => true
  | .resetHighlight => true
  | _ => false

def marked (g : Graph) (highlighted : Option Nat) : Event → Option Nat
  | .highlightNode id => (g.indexOf? id).or highlighted
  | .resetHighlight => none
  | _ => highlighted

theorem marked_of_plain (g : Graph) (highlighted : Option Nat) (event : Event)
    (h : event.isMark = false) : event.marked g highlighted = highlighted := by
  cases event with
  | highlightNode id => cases h
  | resetHighlight => cases h
  | recenterNode | showFunctionDetail | closeDetail | searchChanged | viewportResized
  | layoutStopped | mappingLoaded | mappingFailed => rfl

theorem foldl_marked_of_plain (g : Graph) (highlighted : Option Nat) (events : List Event)
    (h : ∀ event ∈ events, event.isMark = false) :
    events.foldl (marked g) highlighted = highlighted := by
  induction events with
  | nil => rfl
  | cons event events ih =>
    rw [List.foldl_cons, marked_of_plain g highlighted event (h event List.mem_cons_self)]
    exact ih fun e he => h e (List.mem_cons_of_mem event he)

end Event

namespace View

theorem highlighted_of_marks_eq (v w : View) (h : w.marks = v.marks) :
    w.highlighted = v.highlighted :=
  congrArg (fun marks => marks.2.2.2) h

theorem nodeAt?_eq_none_iff (v : View) (g : Graph) (hv : v.Coherent g) (positions : List Point)
    (screen : Point) :
    v.nodeAt? g positions screen = none ↔
      ∀ i < g.nodeCount, covers g positions (v.camera.toWorld screen) i = false := by
  rw [nodeAt?, List.find?_eq_none]
  simp only [List.mem_reverse, hv.nodeOrder_perm.mem_iff, List.mem_range, Bool.not_eq_true]

theorem nodeAt?_lt (v : View) (g : Graph) (hv : v.Coherent g) (positions : List Point)
    (screen : Point) (i : Nat) (h : v.nodeAt? g positions screen = some i) : i < g.nodeCount := by
  have hm := List.mem_of_find?_eq_some h
  rwa [List.mem_reverse, hv.nodeOrder_perm.mem_iff, List.mem_range] at hm

/-- If the highlighted node is what was at a point before it was raised, it still is. -/
theorem nodeAt?_eq_highlighted (g : Graph) (v w : View) (hv : v.Coherent g) (hw : w.Coherent g)
    (hc : w.camera = v.camera) (positions : List Point) (screen : Point)
    (h : v.nodeAt? g positions screen = w.highlighted) :
    w.nodeAt? g positions screen = w.highlighted := by
  cases hh : w.highlighted with
  | none =>
    -- no node covers the point, in whatever order they are asked
    rw [hh, nodeAt?_eq_none_iff v g hv, ← hc] at h
    exact (nodeAt?_eq_none_iff w g hw positions screen).mpr h
  | some i =>
    rw [hh] at h
    have hi : covers g positions (w.camera.toWorld screen) i = true := by
      rw [hc]
      exact List.find?_some h
    obtain ⟨rest, hrest⟩ := List.head?_eq_some_iff.mp
      (List.head?_reverse.trans (hw.getLast?_nodeOrder i hh))
    rw [nodeAt?, hrest, List.find?_cons, hi]

end View

structure Touch.IsIdle (t : Touch) : Prop where
  scroll : (t.scroll == 0) = true
  pinch : t.pinch = 1
  drag : t.drag = none

namespace Canvas

def found? (g : Graph) (positions : List Point) (area : Area) (t : Touch) (v : View) : Option Nat :=
  (t.within area).bind ((moveView t area v).nodeAt? g positions)

theorem isMark_resizeEvents (before after : Point) :
    ∀ event ∈ resizeEvents before after, event.isMark = false := by
  intro event he
  rw [resizeEvents] at he
  split at he
  · exact absurd he List.not_mem_nil
  · rw [List.mem_singleton.mp he]
    rfl

theorem isMark_clickEvents (g : Graph) (node : Option Nat) (clicked : Bool) :
    ∀ event ∈ clickEvents g node clicked, event.isMark = false := by
  intro event he
  unfold clickEvents at he
  split at he
  · rw [List.mem_singleton.mp he]
    rfl
  · exact absurd he List.not_mem_nil

@[simp] theorem hoverEvents_self (g : Graph) (node : Option Nat) :
    hoverEvents g node node = [] := by
  rw [hoverEvents, beq_self_eq_true]
  rfl

theorem foldl_marked_hoverEvents (g : Graph) (hg : g.Indexed) (before after : Option Nat)
    (ha : ∀ k, after = some k → k < g.nodeCount) :
    (hoverEvents g before after).foldl (Event.marked g) before = after := by
  by_cases he : before = after
  · rw [he, hoverEvents_self]
    rfl
  · rw [hoverEvents, beq_eq_false_iff_ne.mpr he]
    cases after with
    | none => rfl
    | some k =>
      have hk : k < g.nodes.size := ha k rfl
      have hn : g.nodes[k]? = some g.nodes[k] := Array.getElem?_eq_getElem hk
      have hi := hg.indexOf?_of_getElem? k _ hn
      simp [hn, Event.marked, hi]

section Frame

variable (g : Graph) (positions : List Point) (area : Area) (t : Touch) (v : View)

@[simp] theorem marks_moveView : (moveView t area v).marks = v.marks := by
  simp only [moveView]
  cases t.drag <;> cases t.within area with
  | none => rfl
  | some p =>
    dsimp only
    split <;> rfl

theorem moveView_of_idle (h : t.IsIdle) : moveView t area v = v := by
  have hone : isZoom (1 * 1) = false := by decide +kernel
  have hz : isZoom (zoomFactor t.scroll t.pinch) = false := by
    rw [zoomFactor, if_pos h.scroll, h.pinch, hone]
  simp only [moveView, h.drag, hz]
  cases t.within area <;> rfl

theorem found?_lt (hv : v.Coherent g) (k : Nat) (h : found? g positions area t v = some k) :
    k < g.nodeCount := by
  obtain ⟨p, _, hk⟩ := Option.bind_eq_some_iff.mp h
  exact (moveView t area v).nodeAt?_lt g (hv.of_marks_eq g v _ (marks_moveView area t v)) _ p k hk

end Frame

/-- The node that a frame has found is found again, though it has been raised meanwhile. -/
theorem found?_eq_highlighted (g : Graph) (positions : List Point) (area area' : Area)
    (t t' : Touch) (v v' : View) (hv : v.Coherent g) (hv' : v'.Coherent g)
    (hpointer : t'.within area' = t.within area)
    (hcamera : v'.camera = (moveView t area v).camera) (hidle : t'.IsIdle)
    (hfound : found? g positions area t v = v'.highlighted) :
    found? g positions area' t' v' = v'.highlighted := by
  have hm := hv.of_marks_eq g v _ (marks_moveView area t v)
  rw [found?] at hfound
  rw [found?, moveView_of_idle area' t' v' hidle, hpointer]
  cases hp : t.within area with
  | none =>
    rw [hp, Option.bind_none] at hfound
    rw [Option.bind_none, hfound]
  | some p =>
    rw [hp, Option.bind_some] at hfound
    rw [Option.bind_some]
    exact View.nodeAt?_eq_highlighted g _ v' hm hv' hcamera positions p hfound

end Canvas

end CodeAtlas
