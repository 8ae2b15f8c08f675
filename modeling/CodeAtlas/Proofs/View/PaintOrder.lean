import Mathlib.Data.List.Induction
import CodeAtlas.Proofs.View.Emphasis

namespace CodeAtlas.View

def raisedNodes (g : Graph) (ops : List Operation) : List Nat :=
  ops.filterMap (·.raised? g)

/-- When a node is last raised, counted from one, or zero if it never is. -/
def lastRaised (history : List Nat) (node : Nat) : Nat :=
  history.length - history.reverse.idxOf node

/-- The last raised node at which just one of two edges ends puts that one on top; without such a
node the edges lie as they are numbered. -/
def Below (g : Graph) (history : List Nat) (e f : Nat) : Prop :=
  match history.reverse.find? fun i => g.endsAt e i != g.endsAt f i with
  | some i => g.endsAt f i = true
  | none => e < f

instance (g : Graph) (history : List Nat) (e f : Nat) : Decidable (Below g history e f) :=
  match h : history.reverse.find? fun i => g.endsAt e i != g.endsAt f i with
  | some i => decidable_of_iff (g.endsAt f i = true) (by rw [Below, h])
  | none => decidable_of_iff (e < f) (by rw [Below, h])

def toTop (l : List Nat) (i : Nat) : List Nat :=
  l.filter (· != i) ++ [i]

@[simp] theorem raisedNodes_concat (g : Graph) (ops : List Operation) (op : Operation) :
    raisedNodes g (ops ++ [op]) = raisedNodes g ops ++ (op.raised? g).toList := by
  rw [raisedNodes, List.filterMap_append]
  cases h : op.raised? g with
  | none => simp [h, raisedNodes]
  | some i => simp [h, raisedNodes]

/-- An operation that raises a node sorts both orders by it, and any other leaves them. -/
theorem orders_apply (g : Graph) (hg : g.Resolved) (v : View) (op : Operation) :
    (v.apply g op).edgeOrder =
        (op.raised? g).toList.foldl (fun l i => raise (g.endsAt · i) l) v.edgeOrder ∧
      (v.apply g op).nodeOrder = (op.raised? g).toList.foldl toTop v.nodeOrder := by
  rcases apply_cases g v op with ⟨id, i, rfl, hi⟩ | rfl | ⟨hn, hm⟩
  · rw [Operation.raised?, hi, apply, highlight_eq g hg v id i hi]
    exact ⟨rfl, rfl⟩
  · exact ⟨rfl, rfl⟩
  · simp only [marks, Prod.mk.injEq] at hm
    rw [hn]
    exact ⟨hm.2.1, hm.2.2.1⟩

theorem orders_run (g : Graph) (hg : g.Resolved) (viewport : Point) (ops : List Operation) :
    ((ofGraph g viewport).run g ops).edgeOrder =
        (raisedNodes g ops).foldl (fun l i => raise (g.endsAt · i) l) (List.range g.edgeCount) ∧
      ((ofGraph g viewport).run g ops).nodeOrder =
        (raisedNodes g ops).foldl toTop (List.range g.nodeCount) := by
  induction ops using List.reverseRecOn with
  | nil => exact ⟨rfl, rfl⟩
  | append_singleton ops op ih =>
    obtain ⟨he, hn⟩ := orders_apply g hg ((ofGraph g viewport).run g ops) op
    rw [run_concat, raisedNodes_concat, List.foldl_append, List.foldl_append, he, hn, ih.1, ih.2]
    exact ⟨rfl, rfl⟩

theorem below_concat (g : Graph) (history : List Nat) (i e f : Nat) :
    Below g (history ++ [i]) e f ↔
      if g.endsAt e i = g.endsAt f i then Below g history e f else g.endsAt f i = true := by
  rw [Below, List.reverse_append, List.reverse_singleton, List.singleton_append, List.find?_cons]
  by_cases h : g.endsAt e i = g.endsAt f i
  · rw [if_pos h, bne_eq_false_iff_eq.mpr h]
    rfl
  · rw [if_neg h, bne_iff_ne.mpr h]

theorem below_asymm (g : Graph) (history : List Nat) (e f : Nat) (h : Below g history e f) :
    ¬ Below g history f e := by
  induction history using List.reverseRecOn with
  | nil => exact Nat.lt_asymm h
  | append_singleton history i ih =>
    rw [below_concat] at h ⊢
    by_cases he : g.endsAt e i = g.endsAt f i
    · rw [if_pos he] at h
      rw [if_pos he.symm]
      exact ih h
    · rw [if_neg he] at h
      rw [if_neg (Ne.symm he)]
      exact fun h' => he (h'.trans h.symm)

theorem pairwise_below_raise (g : Graph) (history : List Nat) (i : Nat) (l : List Nat)
    (hl : l.Pairwise (Below g history)) :
    (raise (g.endsAt · i) l).Pairwise (Below g (history ++ [i])) := by
  have hside : ∀ p : Nat → Bool,
      (∀ e f, p e = true → p f = true → g.endsAt e i = g.endsAt f i) →
        (l.filter p).Pairwise (Below g (history ++ [i])) := by
    intro p hp
    apply (hl.filter p).imp_of_mem
    intro e f he hf h
    rw [below_concat, if_pos (hp e f (List.mem_filter.mp he).2 (List.mem_filter.mp hf).2)]
    exact h
  rw [raise, List.pairwise_append]
  refine ⟨hside _ ?_, hside _ ?_, ?_⟩
  · intro e f he hf
    rw [Bool.not_eq_true'] at he hf
    exact he.trans hf.symm
  · intro e f he hf
    exact he.trans hf.symm
  · intro e he f hf
    have he' := (List.mem_filter.mp he).2
    have hf' : g.endsAt f i = true := (List.mem_filter.mp hf).2
    rw [Bool.not_eq_true'] at he'
    have hne : g.endsAt e i ≠ g.endsAt f i := by
      rw [he', hf']
      exact Bool.false_ne_true
    rw [below_concat, if_neg hne]
    exact hf'

theorem pairwise_below (g : Graph) (history : List Nat) :
    (history.foldl (fun l i => raise (g.endsAt · i) l) (List.range g.edgeCount)).Pairwise
      (Below g history) := by
  induction history using List.reverseRecOn with
  | nil => exact List.pairwise_lt_range
  | append_singleton history i ih =>
    rw [List.foldl_append]
    exact pairwise_below_raise g history i _ ih

theorem idxOf_lt_idxOf_iff (R : Nat → Nat → Prop) (hR : ∀ a b, R a b → ¬ R b a) (l : List Nat)
    (hl : l.Pairwise R) (a b : Nat) (ha : a ∈ l) (hb : b ∈ l) :
    l.idxOf a < l.idxOf b ↔ R a b := by
  have hlt : ∀ x ∈ l, ∀ y ∈ l, l.idxOf x < l.idxOf y → R x y := by
    intro x hx y hy h
    have hr := List.pairwise_iff_getElem.mp hl (l.idxOf x) (l.idxOf y)
      (List.idxOf_lt_length_of_mem hx) (List.idxOf_lt_length_of_mem hy) h
    rwa [List.getElem_idxOf, List.getElem_idxOf] at hr
  refine ⟨hlt a ha b hb, fun h => ?_⟩
  rcases Nat.lt_trichotomy (l.idxOf a) (l.idxOf b) with h' | h' | h'
  · exact h'
  · obtain rfl := (List.idxOf_inj ha).mp h'
    exact absurd h (hR a a h)
  · exact absurd (hlt b hb a ha h') (hR a b h)

theorem lastRaised_concat (history : List Nat) (i j : Nat) :
    lastRaised (history ++ [i]) j =
      if j = i then history.length + 1 else lastRaised history j := by
  rw [lastRaised, lastRaised, List.reverse_append, List.reverse_singleton, List.singleton_append,
    List.idxOf_cons, List.length_append, List.length_singleton]
  by_cases h : j = i
  · simp [h]
  · have hb : (i == j) = false := beq_eq_false_iff_ne.mpr (Ne.symm h)
    rw [if_neg h, hb]
    simp only [cond_false]
    omega

theorem pairwise_lastRaised_toTop (history : List Nat) (i : Nat) (l : List Nat)
    (hl : l.Pairwise (lastRaised history · < lastRaised history ·)) :
    (toTop l i).Pairwise (lastRaised (history ++ [i]) · < lastRaised (history ++ [i]) ·) := by
  have hother : ∀ j ∈ l.filter (· != i),
      lastRaised (history ++ [i]) j = lastRaised history j := by
    intro j hj
    have hne : j ≠ i := by simpa using (List.mem_filter.mp hj).2
    rw [lastRaised_concat, if_neg hne]
  rw [toTop, List.pairwise_append]
  refine ⟨?_, List.pairwise_singleton _ i, ?_⟩
  · apply (hl.filter _).imp_of_mem
    intro j k hj hk h
    rw [hother j hj, hother k hk]
    exact h
  · intro j hj k hk
    obtain rfl := List.mem_singleton.mp hk
    rw [hother j hj, lastRaised_concat, if_pos rfl, lastRaised]
    omega

theorem foldl_toTop (n : Nat) (history : List Nat) :
    ∃ raised, history.foldl toTop (List.range n) =
        (List.range n).filter (· ∉ history) ++ raised ∧
      (∀ i, i ∈ raised ↔ i ∈ history) ∧
      raised.Pairwise (lastRaised history · < lastRaised history ·) := by
  induction history using List.reverseRecOn with
  | nil => exact ⟨[], by simp, by simp, List.Pairwise.nil⟩
  | append_singleton history i ih =>
    obtain ⟨raised, hl, hm, hp⟩ := ih
    refine ⟨toTop raised i, ?_, ?_, pairwise_lastRaised_toTop history i raised hp⟩
    · have hf : ((List.range n).filter (· ∉ history)).filter (· != i) =
          (List.range n).filter (· ∉ history ++ [i]) := by
        rw [List.filter_filter]
        apply List.filter_congr
        intro j _
        by_cases hj : j = i <;> simp [hj]
      rw [List.foldl_append, hl, List.foldl_cons, List.foldl_nil, toTop, List.filter_append, hf,
        List.append_assoc]
      rfl
    · intro j
      rw [toTop, List.mem_append, List.mem_filter, hm, List.mem_append]
      by_cases hj : j = i <;> simp [hj]

/-- Both orders tell what has been highlighted and when. The nodes that never were come first, as
they are numbered, and the others follow as they were last highlighted. Of two edges the one on top
is the one that was raised last without the other. -/
theorem run_paintOrder (steps : List Graph.Step) (viewport : Point) (ops : List Operation) :
    let g := Graph.grown steps
    let v := (ofGraph g viewport).run g ops
    let history := raisedNodes g ops
    (∃ raised, v.nodeOrder = (List.range g.nodeCount).filter (· ∉ history) ++ raised ∧
        (∀ i, i ∈ raised ↔ i ∈ history) ∧
        raised.Pairwise (lastRaised history · < lastRaised history ·)) ∧
      ∀ e < g.edgeCount, ∀ f < g.edgeCount,
        v.edgeOrder.idxOf e < v.edgeOrder.idxOf f ↔ Below g history e f := by
  intro g v history
  have hg : g.Resolved := Graph.resolved_grown steps
  have hv : v.Coherent g := (coherent_ofGraph g viewport).run g hg _ ops
  obtain ⟨he, hn⟩ := orders_run g hg viewport ops
  refine ⟨?_, fun e hlt f hlt' => ?_⟩
  · rw [hn]
    exact foldl_toTop g.nodeCount history
  · have hmem : ∀ k < g.edgeCount, k ∈ v.edgeOrder := fun k hk =>
      hv.edgeOrder_perm.mem_iff.mpr (List.mem_range.mpr hk)
    have hp : v.edgeOrder.Pairwise (Below g history) := by
      rw [he]
      exact pairwise_below g history
    exact idxOf_lt_idxOf_iff _ (below_asymm g history) _ hp e f (hmem e hlt) (hmem f hlt')

/-- Raised by `a` without the other edge, edge 0 stays above edge 3 when `b` raises both. -/
theorem run_paintOrder_tangled :
    let g := Graph.grown tangled
    let v := (ofGraph g ⟨800, 600⟩).run g
      [.highlight "c", .highlight "a", .resetHighlight, .highlight "d", .highlight "b"]
    v.edgeOrder.idxOf 3 < v.edgeOrder.idxOf 0 := by
  intro g v
  have h := (run_paintOrder tangled ⟨800, 600⟩
    [.highlight "c", .highlight "a", .resetHighlight, .highlight "d", .highlight "b"]).2
  exact (h 3 (by decide +kernel) 0 (by decide +kernel)).mpr (by decide +kernel)

end CodeAtlas.View
