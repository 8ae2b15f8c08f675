import Mathlib.Data.List.Perm.Basic
import CodeAtlas.Proofs.Graph.Indices
import CodeAtlas.View.Basic

namespace CodeAtlas

namespace View

inductive Operation where
  | setViewport (viewport : Point)
  | advance (now : Instant)
  | pan (delta : Point)
  | zoom (anchor : Point) (factor : Float32)
  | highlight (id : NodeId)
  | resetHighlight
  | recenter (positions : List Point) (id : NodeId) (now : Instant)

def apply (g : Graph) (v : View) : Operation → View
  | .setViewport viewport => v.setViewport viewport
  | .advance now => v.advance now
  | .pan delta => v.pan delta
  | .zoom anchor factor => v.zoom anchor factor
  | .highlight id => (v.highlight g id).1
  | .resetHighlight => v.resetHighlight
  | .recenter positions id now => (v.recenter g positions id now).1

def run (g : Graph) (v : View) (ops : List Operation) : View :=
  ops.foldl (apply g) v

@[simp] theorem run_concat (g : Graph) (v : View) (ops : List Operation) (op : Operation) :
    v.run g (ops ++ [op]) = (v.run g ops).apply g op := by
  rw [run, List.foldl_append]
  rfl

def Operation.raised? (g : Graph) : Operation → Option Nat
  | .highlight id => g.indexOf? id
  | _ => none

theorem advance_cases (v : View) (now : Instant) :
    ∃ camera transition,
      v.advance now = { v with camera := camera, transition := transition } := by
  rw [advance]
  cases v.transition with
  | none => exact ⟨v.camera, v.transition, rfl⟩
  | some t =>
    dsimp only
    split
    · exact ⟨t.target, none, rfl⟩
    · exact ⟨t.camera now, some t, rfl⟩

/-- Centering selects the node that it finds and moves the camera, or changes nothing. -/
theorem recenter_cases (v : View) (g : Graph) (positions : List Point) (id : NodeId)
    (now : Instant) :
    (target? g positions id = none ∧ v.recenter g positions id now = (v, none)) ∨
      ∃ index world camera transition, target? g positions id = some (index, world) ∧
        v.recenter g positions id now = ({ v with
          camera := camera
          transition := transition
          selected := some index
          untouched := false }, g.nodes[index]?.map .ofNode) := by
  rw [recenter]
  cases ht : target? g positions id with
  | none => exact Or.inl ⟨rfl, rfl⟩
  | some place =>
    obtain ⟨index, world⟩ := place
    obtain ⟨camera, transition, ha⟩ := advance_cases v now
    refine Or.inr
      ⟨index, world, camera, some ⟨camera, .centeredOn world v.viewport 1, now⟩, rfl, ?_⟩
    dsimp only
    rw [centerOn, ha]

/-- What highlighting has to do with: the flags, both orders and the highlighted node. -/
def marks (v : View) : List Bool × List Nat × List Nat × Option Nat :=
  (v.emphasized, v.edgeOrder, v.nodeOrder, v.highlighted)

@[simp] theorem marks_advance (v : View) (now : Instant) : (v.advance now).marks = v.marks := by
  obtain ⟨camera, transition, h⟩ := advance_cases v now
  rw [h]
  rfl

@[simp] theorem marks_recenter (v : View) (g : Graph) (positions : List Point) (id : NodeId)
    (now : Instant) : (v.recenter g positions id now).1.marks = v.marks := by
  rcases recenter_cases v g positions id now with ⟨_, h⟩ | ⟨_, _, _, _, _, h⟩
  · rw [h]
  · rw [h]
    rfl

/-- Only a highlight that finds its node and a reset change the marks. -/
theorem apply_cases (g : Graph) (v : View) (op : Operation) :
    (∃ id i, op = .highlight id ∧ g.indexOf? id = some i) ∨ op = .resetHighlight ∨
      (op.raised? g = none ∧ (v.apply g op).marks = v.marks) := by
  cases op with
  | highlight id =>
    cases hi : g.indexOf? id with
    | none => exact Or.inr (Or.inr ⟨hi, by simp [apply, View.highlight, hi]⟩)
    | some i => exact Or.inl ⟨id, i, rfl, hi⟩
  | resetHighlight => exact Or.inr (Or.inl rfl)
  | advance now => exact Or.inr (Or.inr ⟨rfl, marks_advance v now⟩)
  | recenter positions id now =>
    exact Or.inr (Or.inr ⟨rfl, marks_recenter v g positions id now⟩)
  | setViewport _ => exact Or.inr (Or.inr ⟨rfl, rfl⟩)
  | pan _ => exact Or.inr (Or.inr ⟨rfl, rfl⟩)
  | zoom _ _ => exact Or.inr (Or.inr ⟨rfl, rfl⟩)

/-- Move what satisfies `p` to the end; otherwise the order stays. -/
def raise (p : Nat → Bool) (l : List Nat) : List Nat :=
  l.filter (!p ·) ++ l.filter p

theorem raise_perm (p : Nat → Bool) (l : List Nat) : (raise p l).Perm l := by
  simpa [raise] using List.filter_append_perm (!p ·) l

/-- What has been raised is the end of the list. -/
theorem filter_raise (p : Nat → Bool) (l : List Nat) : (raise p l).filter p = l.filter p := by
  simp [raise, List.filter_filter]

theorem raise_single (l : List Nat) (hl : l.Nodup) (i : Nat) (hi : i ∈ l) :
    raise (· == i) l = l.filter (· != i) ++ [i] := by
  rw [raise, List.filter_beq, List.count_eq_one_of_mem hl hi]
  rfl

/-- The flags and both orders fit the graph and the highlighted node. -/
structure Coherent (g : Graph) (v : View) : Prop where
  length_emphasized : v.emphasized.length = g.edgeCount
  edgeOrder_perm : v.edgeOrder.Perm (List.range g.edgeCount)
  nodeOrder_perm : v.nodeOrder.Perm (List.range g.nodeCount)
  emphasized_iff : ∀ i, v.highlighted = some i →
    ∀ k, v.isEmphasized k = true ↔ g.endsAt k i = true
  getLast?_nodeOrder : ∀ i, v.highlighted = some i → v.nodeOrder.getLast? = some i
  not_emphasized : v.highlighted = none → ∀ k, v.isEmphasized k = false
  emphasized_suffix : v.edgeOrder.filter v.isEmphasized <:+ v.edgeOrder

theorem Coherent.of_marks_eq (g : Graph) (v w : View) (hv : v.Coherent g)
    (h : w.marks = v.marks) : w.Coherent g := by
  simp only [marks, Prod.mk.injEq] at h
  obtain ⟨hf, he, hn, hh⟩ := h
  have hi : w.isEmphasized = v.isEmphasized := by
    funext k
    rw [isEmphasized, hf, isEmphasized]
  constructor
  · rw [hf]
    exact hv.length_emphasized
  · rw [he]
    exact hv.edgeOrder_perm
  · rw [hn]
    exact hv.nodeOrder_perm
  · rw [hh, hi]
    exact hv.emphasized_iff
  · rw [hh, hn]
    exact hv.getLast?_nodeOrder
  · rw [hh, hi]
    exact hv.not_emphasized
  · rw [hi, he]
    exact hv.emphasized_suffix

theorem Coherent.of_plain (g : Graph) (v : View) (hl : v.emphasized.length = g.edgeCount)
    (he : v.edgeOrder.Perm (List.range g.edgeCount))
    (hn : v.nodeOrder.Perm (List.range g.nodeCount)) (hh : v.highlighted = none)
    (hf : ∀ k, v.isEmphasized k = false) : v.Coherent g := by
  have hnil : v.edgeOrder.filter v.isEmphasized = [] := by
    rw [List.filter_eq_nil_iff]
    intro k _
    rw [hf]
    exact Bool.false_ne_true
  refine ⟨hl, he, hn, ?_, ?_, fun _ => hf, ?_⟩
  · intro i hi
    rw [hh] at hi
    cases hi
  · intro i hi
    rw [hh] at hi
    cases hi
  · rw [hnil]
    exact List.nil_suffix

theorem coherent_ofGraph (g : Graph) (viewport : Point) : (ofGraph g viewport).Coherent g := by
  apply Coherent.of_plain
  · exact List.length_replicate
  · rfl
  · rfl
  · rfl
  · intro k
    simp only [isEmphasized, ofGraph, List.getD_eq_getElem?_getD, List.getElem?_replicate]
    split <;> rfl

@[simp] theorem found_highlight (g : Graph) (v : View) (id : NodeId) :
    (v.highlight g id).2 = g.contains id := by
  rw [highlight, Graph.contains_eq]
  cases g.indexOf? id <;> rfl

theorem highlight_eq (g : Graph) (hg : g.Resolved) (v : View) (id : NodeId) (i : Nat)
    (hi : g.indexOf? id = some i) :
    v.highlight g id = ({ v with
      emphasized := g.edges.toList.map (·.touches id)
      edgeOrder := raise (g.endsAt · i) v.edgeOrder
      nodeOrder := v.nodeOrder.filter (· != i) ++ [i]
      highlighted := some i }, true) := by
  simp only [highlight, hi, hg.getD_touches g id i hi, raise]

theorem Coherent.highlight (g : Graph) (hg : g.Resolved) (v : View) (hv : v.Coherent g)
    (id : NodeId) (i : Nat) (hi : g.indexOf? id = some i) : (v.highlight g id).1.Coherent g := by
  have hlt : i ∈ v.nodeOrder := by
    rw [hv.nodeOrder_perm.mem_iff, List.mem_range]
    exact hg.indexed.indexOf?_lt g id i hi
  have hd : v.nodeOrder.Nodup := hv.nodeOrder_perm.nodup_iff.mpr List.nodup_range
  have hf : ∀ k, (v.highlight g id).1.isEmphasized k = g.endsAt k i := by
    intro k
    rw [isEmphasized, highlight_eq g hg v id i hi]
    exact hg.getD_touches g id i hi k
  have he : (v.highlight g id).1.edgeOrder = raise (g.endsAt · i) v.edgeOrder := by
    rw [highlight_eq g hg v id i hi]
  -- the node is in the order just once, so that it is raised like a set of edges
  have hn : (v.highlight g id).1.nodeOrder = raise (· == i) v.nodeOrder := by
    rw [highlight_eq g hg v id i hi, raise_single v.nodeOrder hd i hlt]
  have hh : (v.highlight g id).1.highlighted = some i := by
    rw [highlight_eq g hg v id i hi]
  constructor
  · rw [highlight_eq g hg v id i hi]
    simp [Graph.edgeCount]
  · rw [he]
    exact (raise_perm _ _).trans hv.edgeOrder_perm
  · rw [hn]
    exact (raise_perm _ _).trans hv.nodeOrder_perm
  · intro j hj k
    rw [hf, Option.some.inj (hh.symm.trans hj)]
  · intro j hj
    rw [hn, raise_single v.nodeOrder hd i hlt, List.getLast?_concat,
      Option.some.inj (hh.symm.trans hj)]
  · intro hnone
    rw [hh] at hnone
    cases hnone
  · rw [funext hf, he, filter_raise]
    exact List.suffix_append _ _

theorem Coherent.resetHighlight (g : Graph) (v : View) (hv : v.Coherent g) :
    v.resetHighlight.Coherent g := by
  apply Coherent.of_plain
  · rw [View.resetHighlight, List.length_map]
    exact hv.length_emphasized
  · exact hv.edgeOrder_perm
  · exact hv.nodeOrder_perm
  · rfl
  · intro k
    simp only [isEmphasized, View.resetHighlight, List.getD_eq_getElem?_getD, List.getElem?_map]
    cases v.emphasized[k]? <;> rfl

theorem Coherent.apply (g : Graph) (hg : g.Resolved) (v : View) (hv : v.Coherent g)
    (op : Operation) : (v.apply g op).Coherent g := by
  rcases apply_cases g v op with ⟨id, i, rfl, hi⟩ | rfl | ⟨_, h⟩
  · exact hv.highlight g hg v id i hi
  · exact hv.resetHighlight g v
  · exact hv.of_marks_eq g v _ h

theorem Coherent.run (g : Graph) (hg : g.Resolved) (v : View) (hv : v.Coherent g)
    (ops : List Operation) : (v.run g ops).Coherent g := by
  induction ops using List.reverseRecOn with
  | nil => exact hv
  | append_singleton ops op ih =>
    rw [run_concat]
    exact ih.apply g hg _ op

/-- Set the flags of some edges, unless one of the edges has no flag. -/
def flagged? (flags : List Bool) (edges : List Nat) : Option (List Bool) :=
  edges.foldlM (fun flags k => if k < flags.length then some (flags.set k true) else none) flags

theorem flagged?_of_lt (edges : List Nat) (flags : List Bool)
    (h : ∀ k ∈ edges, k < flags.length) :
    ∃ flags', flagged? flags edges = some flags' ∧ flags'.length = flags.length ∧
      ∀ k, flags'.getD k false = true ↔ flags.getD k false = true ∨ k ∈ edges := by
  induction edges generalizing flags with
  | nil => exact ⟨flags, rfl, rfl, by simp⟩
  | cons a edges ih =>
    have ha : a < flags.length := h a List.mem_cons_self
    have hrest : ∀ k ∈ edges, k < (flags.set a true).length := by
      intro k hk
      rw [List.length_set]
      exact h k (List.mem_cons_of_mem a hk)
    obtain ⟨flags', he, hl, hf⟩ := ih (flags.set a true) hrest
    refine ⟨flags', ?_, by rw [hl, List.length_set], ?_⟩
    · rw [flagged?, List.foldlM_cons, if_pos ha]
      exact he
    · intro k
      rw [hf, List.mem_cons, List.getD_eq_getElem?_getD, List.getElem?_set,
        List.getD_eq_getElem?_getD]
      by_cases hk : a = k
      · subst hk
        simp [ha]
      · simp [hk, Ne.symm hk]

/-- In a coherent view every flag that highlighting sets or reads is there. -/
theorem Coherent.flagged? (g : Graph) (v : View) (hv : v.Coherent g) (id : NodeId)
    (hid : g.contains id = true) :
    View.flagged? v.resetHighlight.emphasized (g.incidentEdges id) =
      some (v.highlight g id).1.emphasized := by
  obtain ⟨i, hi⟩ := g.exists_indexOf? id hid
  have hreset := hv.resetHighlight g v
  have hflags : (v.highlight g id).1.emphasized = g.edges.toList.map (·.touches id) := by
    simp [View.highlight, hi]
  have hlen : (g.edges.toList.map (·.touches id)).length = g.edgeCount := by
    simp [Graph.edgeCount]
  have hlt : ∀ k ∈ g.incidentEdges id, k < v.resetHighlight.emphasized.length := by
    intro k hk
    rw [hreset.length_emphasized, ← hlen]
    by_contra hge
    rw [Graph.mem_incidentEdges, List.getD_eq_default _ _ (by omega)] at hk
    cases hk
  obtain ⟨flags, he, hl, hf⟩ := flagged?_of_lt _ _ hlt
  rw [he, hflags, Option.some_inj]
  apply List.ext_getElem
  · rw [hl, hreset.length_emphasized, hlen]
  · intro k hk hk'
    have hnone : v.resetHighlight.emphasized.getD k false = false := hreset.not_emphasized rfl k
    have hiff := hf k
    rw [hnone, Graph.mem_incidentEdges, List.getD_eq_getElem _ _ hk,
      List.getD_eq_getElem _ _ hk'] at hiff
    rw [Bool.eq_iff_iff, hiff]
    simp

/-- Whatever is done to the view of a graph, an edge stands out exactly if it ends at the
highlighted node, and both orders list everything once, what stands out on top. Highlighting finds
its node and reaches for no flag that is not there, be it to set the edges of the node or to sort
all edges. -/
theorem run_coherent (steps : List Graph.Step) (viewport : Point) (ops : List Operation) :
    let g := Graph.grown steps
    let v := (ofGraph g viewport).run g ops
    v.Coherent g ∧
      (∀ id, (v.highlight g id).2 = g.contains id) ∧
      ∀ id, g.contains id = true →
        (v.highlight g id).1.highlighted = g.indexOf? id ∧
          flagged? v.resetHighlight.emphasized (g.incidentEdges id) =
            some (v.highlight g id).1.emphasized ∧
          ∀ k ∈ v.edgeOrder, k < (v.highlight g id).1.emphasized.length := by
  intro g v
  have hg : g.Resolved := Graph.resolved_grown steps
  have hv : v.Coherent g := (coherent_ofGraph g viewport).run g hg _ ops
  refine ⟨hv, found_highlight g v, fun id hid => ?_⟩
  obtain ⟨i, hi⟩ := g.exists_indexOf? id hid
  refine ⟨?_, hv.flagged? g v id hid, fun k hk => ?_⟩
  · rw [highlight_eq g hg v id i hi, hi]
  · rw [(hv.highlight g hg v id i hi).length_emphasized, ← List.mem_range,
      ← hv.edgeOrder_perm.mem_iff]
    exact hk

/-- Parallel edges, an edge from a node to itself and one without an end. -/
def tangled : List Graph.Step :=
  [.node (.ofFolder "a" "a" 0), .node (.ofFolder "b" "b" 0), .node (.ofFolder "c" "c" 0),
    .edge ⟨"a", "b"⟩, .edge ⟨"c", "c"⟩, .edge ⟨"a", "b"⟩, .edge ⟨"b", "c"⟩, .edge ⟨"a", "d"⟩]

theorem run_coherent_tangled :
    let g := Graph.grown tangled
    let v := (ofGraph g ⟨800, 600⟩).run g
      [.highlight "c", .pan ⟨5, 5⟩, .highlight "d", .highlight "a"]
    v.highlighted = some 0 ∧ v.nodeOrder.getLast? = some 0 ∧
      (v.isEmphasized 2 = true ↔ g.endsAt 2 0 = true) ∧
      v.edgeOrder.filter v.isEmphasized <:+ v.edgeOrder ∧
      flagged? v.resetHighlight.emphasized (g.incidentEdges "b") =
        some (v.highlight g "b").1.emphasized := by
  intro g v
  have hh : v.highlighted = some 0 := by decide +kernel
  obtain ⟨hv, _, hb⟩ := run_coherent tangled ⟨800, 600⟩
    [.highlight "c", .pan ⟨5, 5⟩, .highlight "d", .highlight "a"]
  exact ⟨hh, hv.getLast?_nodeOrder 0 hh, hv.emphasized_iff 0 hh 2, hv.emphasized_suffix,
    (hb "b" (by decide +kernel)).2.1⟩

end View

end CodeAtlas
