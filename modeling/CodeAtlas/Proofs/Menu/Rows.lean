import Mathlib.Logic.Relation
import CodeAtlas.Proofs.Menu.Forest

namespace CodeAtlas.Menu

def IsAbove (m : Menu) : (a i : Nat) → Prop :=
  Relation.TransGen fun p i => i ∈ m.childrenOf p

/-- The item passes the filter, and all that it stands below is expanded. -/
def IsShown (m : Menu) (i : Nat) : Prop :=
  m.isVisible i ∧ ∀ a, m.IsAbove a i → m.isExpanded a

noncomputable instance (m : Menu) : DecidablePred m.IsShown :=
  Classical.decPred _

theorem IsForest.isAbove_child (m : Menu) (h : m.IsForest) (a p i : Nat)
    (hi : i ∈ m.childrenOf p) : m.IsAbove a i ↔ a = p ∨ m.IsAbove a p := by
  rw [IsAbove, Relation.TransGen.tail'_iff]
  constructor
  · intro ⟨q, ha, hq⟩
    rw [h.parent_unique m q p i hq hi] at ha
    obtain he | ha := Relation.reflTransGen_iff_eq_or_transGen.mp ha
    · exact Or.inl he.symm
    · exact Or.inr ha
  · rintro (rfl | ha)
    · exact ⟨a, .refl, hi⟩
    · exact ⟨p, ha.to_reflTransGen, hi⟩

theorem IsForest.not_isAbove_root (m : Menu) (h : m.IsForest) (a i : Nat) (hi : i ∈ m.roots) :
    ¬ m.IsAbove a i := by
  intro ha
  obtain ⟨p, _, hp⟩ := Relation.TransGen.tail'_iff.mp ha
  obtain ⟨_, hno⟩ | ⟨hno, _⟩ := h.root_or_child i (h.root_lt i hi)
  · exact hno p hp
  · exact hno hi

theorem exists_above_of_mem_preorderFrom (m : Menu) (d : Nat) (ids : List Nat) (i : Nat)
    (h : i ∈ m.preorderFrom d ids) : ∃ r ∈ ids, i = r ∨ m.IsAbove r i := by
  induction d generalizing ids with
  | zero => exact absurd h List.not_mem_nil
  | succ d ih =>
    obtain ⟨r, hr, hi⟩ := List.mem_flatMap.mp h
    obtain he | hi := List.mem_cons.mp hi
    · exact ⟨r, hr, Or.inl he⟩
    · obtain ⟨q, hq, he | ha⟩ := ih _ hi
      · subst he
        exact ⟨r, hr, Or.inr (.single hq)⟩
      · exact ⟨r, hr, Or.inr (.head hq ha)⟩

theorem IsForest.rowsFrom_eq_filter (m : Menu) (h : m.IsForest) (d : Nat) (ids : List Nat)
    (hids : ∀ i ∈ ids, ∀ a, m.IsAbove a i → m.isExpanded a) :
    m.rowsFrom d ids = (m.preorderFrom d ids).filter (m.IsShown ·) := by
  induction d generalizing ids with
  | zero => rfl
  | succ d ih =>
    rw [rowsFrom, preorderFrom, List.filter_flatMap]
    apply List.flatMap_congr
    intro i hi
    have hself : m.IsShown i ↔ m.isVisible i := and_iff_left (hids i hi)
    have hbelow : (if m.isExpanded i then m.rowsFrom d (m.childrenOf i) else []) =
        (m.preorderFrom d (m.childrenOf i)).filter (m.IsShown ·) := by
      by_cases he : m.isExpanded i
      · rw [if_pos he]
        apply ih
        intro j hj a ha
        obtain rfl | ha := (h.isAbove_child m a i j hj).mp ha
        · exact he
        · exact hids i hi a ha
      · -- nothing below a collapsed item is shown
        rw [if_neg he, eq_comm, List.filter_eq_nil_iff]
        intro j hj hs
        obtain ⟨q, hq, hqj⟩ := exists_above_of_mem_preorderFrom m d _ j hj
        have ha : m.IsAbove i j := by
          obtain rfl | hqj := hqj
          · exact .single hq
          · exact .head hq hqj
        exact he ((of_decide_eq_true hs).2 i ha)
    rw [hbelow, List.filter_cons]
    by_cases hv : m.isVisible i
    · simp [hself, hv]
    · simp [hself, hv]

theorem IsForest.rows_eq_filter (m : Menu) (h : m.IsForest) :
    m.rows = m.preorder.filter (m.IsShown ·) := by
  apply h.rowsFrom_eq_filter
  intro i hi a ha
  exact absurd ha (h.not_isAbove_root m a i hi)

/-- The loop that lists the rows: an item is listed if it passes the filter, and what is below it
is visited if it is expanded. -/
def Draws (m : Menu) : (stack rows : List Nat) → Prop :=
  Walks (fun i => if m.isVisible i then [i] else [])
    fun i => if m.isExpanded i then m.childrenOf i else []

@[simp] theorem rowsFrom_nil (m : Menu) (d : Nat) : m.rowsFrom d [] = [] := by
  cases d <;> rfl

theorem IsForest.draws_rows (m : Menu) (h : m.IsForest) : m.Draws m.roots m.rows := by
  apply h.walks_roots m
  · intro i
    split
    · exact List.Subset.refl _
    · exact List.nil_subset _
  · intro d ids
    rw [rowsFrom]
    apply List.flatMap_congr
    intro i _
    congr 1
    by_cases he : m.isExpanded i
    · rw [if_pos he, if_pos he]
    · rw [if_neg he, if_neg he, rowsFrom_nil]
  · exact fun _ => rfl

inductive Operation where
  | toggle (id : Nat)
  | activate (id : Nat)
  | filter (query : String)

def apply (m : Menu) : Operation → Menu
  | .toggle id => m.toggle id
  | .activate id => (m.activate id).1
  | .filter query => m.filter query

def run (m : Menu) (ops : List Operation) : Menu :=
  ops.foldl apply m

@[simp] theorem run_concat (m : Menu) (ops : List Operation) (op : Operation) :
    m.run (ops ++ [op]) = (m.run ops).apply op := by
  rw [run, List.foldl_append]
  rfl

def Operation.query? : Operation → Option String
  | .filter query => some query
  | _ => none

def Operation.turns (m : Menu) (i : Nat) : Operation → Bool
  | .toggle id => id == i
  | .activate id => id == i && (m.item? id).any (·.target.isFolder)
  | .filter _ => false

def Item.changed (item : Item) (turned : Bool) (query? : Option String) : Item :=
  { item with
    expanded := item.expanded ^^ (item.hasChildren && turned)
    visible := (query?.map (Text.containsIgnoringCase · item.label)).getD item.visible }

@[simp] theorem Item.changed_false_none (item : Item) : item.changed false none = item := by
  simp [changed]

theorem Item.changed_true_none (item : Item) :
    item.changed true none =
      if item.hasChildren then { item with expanded := !item.expanded } else item := by
  cases h : item.hasChildren with
  | true => simp [changed, h]
  | false => simp [changed, h]

theorem item?_toggle (m : Menu) (id i : Nat) :
    (m.toggle id).item? i = (m.item? i).map (·.changed (id == i) none) := by
  rw [item?, toggle, Array.getElem?_modify]
  by_cases h : id = i
  · simp only [h, if_true, beq_self_eq_true, Item.changed_true_none]
    rfl
  · simp only [h, if_false, beq_eq_false_iff_ne.mpr h, Item.changed_false_none, Option.map_id']
    rfl

/-- Each operation changes each item by itself. -/
theorem item?_apply (m : Menu) (op : Operation) (i : Nat) :
    (m.apply op).item? i = (m.item? i).map (·.changed (op.turns m i) op.query?) := by
  cases op with
  | toggle id => exact item?_toggle m id i
  | activate id =>
    simp only [apply, activate, Operation.turns, Operation.query?]
    cases hid : m.item? id with
    | none => simp
    | some item =>
      cases ht : item.target with
      | folder path => simp [ht, Target.isFolder, item?_toggle]
      | function path name => simp [ht, Target.isFolder]
  | filter query =>
    rw [apply, item?, filter, Array.getElem?_map]
    simp only [Operation.turns, Operation.query?, Item.changed, Bool.and_false, Bool.xor_false]
    rfl

@[simp] theorem roots_apply (m : Menu) (op : Operation) : (m.apply op).roots = m.roots := by
  cases op with
  | toggle id => rfl
  | activate id =>
    rw [apply, activate]
    split <;> rfl
  | filter query => rfl

@[simp] theorem size_apply (m : Menu) (op : Operation) : (m.apply op).size = m.size := by
  cases op with
  | toggle id => exact Array.size_modify
  | activate id =>
    rw [apply, activate]
    split
    · rfl
    · exact Array.size_modify
    · rfl
  | filter query => exact Array.size_map

@[simp] theorem folders_apply (m : Menu) (op : Operation) : (m.apply op).folders = m.folders := by
  cases op with
  | toggle id => rfl
  | activate id =>
    rw [apply, activate]
    split <;> rfl
  | filter query => rfl

@[simp] theorem query_apply (m : Menu) (op : Operation) :
    (m.apply op).query = op.query?.getD m.query := by
  cases op with
  | toggle id => rfl
  | activate id => exact query_activate m id
  | filter query => rfl

def lastQuery (ops : List Operation) : String :=
  ((ops.filterMap Operation.query?).getLast?).getD ""

def turnCount (m : Menu) (i : Nat) (ops : List Operation) : Nat :=
  ops.countP (·.turns m i)

theorem Item.changed_changed (item : Item) (a b : Bool) (q r : Option String) :
    (item.changed a q).changed b r = item.changed (a ^^ b) (r.or q) := by
  unfold changed
  congr 1
  · change ((item.expanded ^^ (item.hasChildren && a)) ^^ (item.hasChildren && b)) = _
    rw [Bool.and_xor_distrib_left, Bool.xor_assoc]
  · cases r <;> rfl

theorem getLast?_filterMap_concat {α β : Type} (f : α → Option β) (l : List α) (a : α) :
    ((l ++ [a]).filterMap f).getLast? = (f a).or (l.filterMap f).getLast? := by
  rw [List.filterMap_append, List.getLast?_append]
  cases h : f a <;> simp [h]

theorem item?_run (m : Menu) (ops : List Operation) (i : Nat) :
    (m.run ops).item? i =
      (m.item? i).map (·.changed (m.turnCount i ops % 2 = 1)
        (ops.filterMap Operation.query?).getLast?) := by
  induction ops using List.reverseRecOn generalizing i with
  | nil => simp [run, turnCount]
  | append_singleton ops op ih =>
    -- no operation makes a function a folder
    have ht : op.turns (m.run ops) i = op.turns m i := by
      cases op with
      | activate id =>
        rw [Operation.turns, ih, Option.any_map]
        rfl
      | toggle id => rfl
      | filter query => rfl
    have hp : decide (m.turnCount i (ops ++ [op]) % 2 = 1) =
        (decide (m.turnCount i ops % 2 = 1) ^^ op.turns m i) := by
      rw [turnCount, List.countP_append, List.countP_singleton, ← turnCount]
      cases op.turns m i with
      | true =>
        rw [if_pos rfl, Bool.xor_true, ← decide_not, decide_eq_decide]
        omega
      | false => simp
    rw [run_concat, item?_apply, ih, Option.map_map, ht, hp, getLast?_filterMap_concat]
    congr 1
    funext item
    exact item.changed_changed _ _ _ _

/-- What no operation changes, a run leaves as it is. -/
theorem run_of_apply {α : Type} (part : Menu → α) (h : ∀ m op, part (m.apply op) = part m)
    (m : Menu) (ops : List Operation) : part (m.run ops) = part m := by
  induction ops using List.reverseRecOn with
  | nil => rfl
  | append_singleton ops op ih => rw [run_concat, h, ih]

@[simp] theorem roots_run (m : Menu) (ops : List Operation) : (m.run ops).roots = m.roots :=
  run_of_apply roots roots_apply m ops

@[simp] theorem folders_run (m : Menu) (ops : List Operation) :
    (m.run ops).folders = m.folders :=
  run_of_apply folders folders_apply m ops

@[simp] theorem size_run (m : Menu) (ops : List Operation) : (m.run ops).size = m.size :=
  run_of_apply size size_apply m ops

theorem query_run (m : Menu) (ops : List Operation) :
    (m.run ops).query = (ops.filterMap Operation.query?).getLast?.getD m.query := by
  induction ops using List.reverseRecOn with
  | nil => rfl
  | append_singleton ops op ih =>
    rw [run_concat, query_apply, ih, getLast?_filterMap_concat]
    cases op.query? <;> rfl

@[simp] theorem childrenOf_run (m : Menu) (ops : List Operation) :
    (m.run ops).childrenOf = m.childrenOf := by
  funext i
  rw [childrenOf, item?_run, Option.map_map]
  rfl

@[simp] theorem depthOf_run (m : Menu) (ops : List Operation) :
    (m.run ops).depthOf = m.depthOf := by
  funext i
  rw [depthOf, item?_run, Option.map_map]
  rfl

theorem IsForest.run (m : Menu) (h : m.IsForest) (ops : List Operation) : (m.run ops).IsForest := by
  constructor
  all_goals simp only [roots_run, size_run, childrenOf_run, depthOf_run]
  · exact h.root_or_child
  · exact h.nodup_roots
  · exact h.nodup_children
  · exact h.root_lt
  · exact h.child_lt
  · exact h.depth_root
  · exact h.depth_child

@[simp] theorem preorderFrom_run (m : Menu) (ops : List Operation) (d : Nat) (ids : List Nat) :
    (m.run ops).preorderFrom d ids = m.preorderFrom d ids := by
  induction d generalizing ids with
  | zero => rfl
  | succ d ih => simp only [preorderFrom, childrenOf_run, ih]

@[simp] theorem containsIgnoringCase_empty (text : String) :
    Text.containsIgnoringCase "" text = true := by
  rw [Text.containsIgnoringCase]
  cases Text.lower text.toList with
  | nil => rfl
  | cons c cs => rfl

/-- What a menu shows of an item is settled by the last query and by the parity of its turns. -/
theorem item?_run_ofCodebase (c : Codebase) (ops : List Operation) (i : Nat) :
    ((ofCodebase c).run ops).item? i =
      ((ofCodebase c).item? i).map fun item =>
        { item with
          expanded := item.hasChildren && (ofCodebase c).turnCount i ops % 2 = 1
          visible := Text.containsIgnoringCase (lastQuery ops) item.label } := by
  rw [item?_run]
  cases hi : (ofCodebase c).item? i with
  | none => rfl
  | some item =>
    obtain ⟨he, hv⟩ := (built_ofCodebase c).flags_eq _ i item hi
    rw [Option.map_some, Option.map_some, Item.changed, he, hv, Bool.false_xor, lastQuery]
    cases (ops.filterMap Operation.query?).getLast? with
    | none => simp
    | some query => rfl

theorem run_eq_run (c : Codebase) (ops ops' : List Operation) (hq : lastQuery ops = lastQuery ops')
    (ht : ∀ i < (ofCodebase c).size,
      (ofCodebase c).turnCount i ops % 2 = (ofCodebase c).turnCount i ops' % 2) :
    (ofCodebase c).run ops = (ofCodebase c).run ops' := by
  have hitems : ((ofCodebase c).run ops).items = ((ofCodebase c).run ops').items := by
    apply Array.ext_getElem?
    intro i
    change ((ofCodebase c).run ops).item? i = ((ofCodebase c).run ops').item? i
    rw [item?_run_ofCodebase, item?_run_ofCodebase, hq]
    by_cases hi : i < (ofCodebase c).size
    · rw [ht i hi]
    · have hno : (ofCodebase c).item? i = none := Array.getElem?_eq_none (Nat.le_of_not_lt hi)
      rw [hno]
      rfl
  have hroots : ((ofCodebase c).run ops).roots = ((ofCodebase c).run ops').roots := by
    rw [roots_run, roots_run]
  have hfolders : ((ofCodebase c).run ops).folders = ((ofCodebase c).run ops').folders := by
    rw [folders_run, folders_run]
  have hquery : ((ofCodebase c).run ops).query = ((ofCodebase c).run ops').query := by
    rw [query_run, query_run, query_ofCodebase]
    exact hq
  cases hm : (ofCodebase c).run ops
  cases hm' : (ofCodebase c).run ops'
  simp only [hm, hm'] at hitems hroots hfolders hquery
  rw [hitems, hroots, hfolders, hquery]

/-- Whatever has been done to the menu of a codebase, the loop over a stack ends, and its rows are
the visible items whose folders are all expanded, in display order, which never changes. An item is
visible if its label passes the last query. It is expanded if it has anything below it and was
turned an odd number of times. So two histories that agree on the last query and on the parities
have the same rows. -/
theorem rows_run_ofCodebase (c : Codebase) (ops : List Operation) :
    ((ofCodebase c).run ops).Draws ((ofCodebase c).run ops).roots ((ofCodebase c).run ops).rows ∧
      ((ofCodebase c).run ops).rows =
        ((ofCodebase c).run ops).preorder.filter (((ofCodebase c).run ops).IsShown ·) ∧
      ((ofCodebase c).run ops).preorder = (ofCodebase c).preorder ∧
      (∀ i item, ((ofCodebase c).run ops).item? i = some item →
        item.visible = Text.containsIgnoringCase (lastQuery ops) item.label ∧
          (item.expanded ↔ item.hasChildren ∧ (ofCodebase c).turnCount i ops % 2 = 1)) ∧
      ∀ ops', lastQuery ops = lastQuery ops' →
        (∀ i < (ofCodebase c).size,
          (ofCodebase c).turnCount i ops % 2 = (ofCodebase c).turnCount i ops' % 2) →
        ((ofCodebase c).run ops).rows = ((ofCodebase c).run ops').rows := by
  have hf := (built_ofCodebase c).isForest.run _ ops
  refine ⟨hf.draws_rows, hf.rows_eq_filter, ?_, ?_, ?_⟩
  · rw [preorder, preorderFrom_run, size_run, roots_run, preorder]
  · intro i item hi
    rw [item?_run_ofCodebase] at hi
    obtain ⟨old, _, he⟩ := Option.map_eq_some_iff.mp hi
    subst he
    exact ⟨rfl, by simp [Item.hasChildren]⟩
  · intro ops' hq ht
    rw [run_eq_run c ops ops' hq ht]

/-- The second history collapses the folder and opens it again, turns an item that has nothing below
it there and back, and clicks on a function and on no item at all. -/
theorem rows_run_ofCodebase_scattered :
    ((ofCodebase scattered).run [.toggle 0, .filter "B"]).rows = [1, 8] ∧
      ((ofCodebase scattered).run [.activate 0, .toggle 5, .activate 8, .filter "g", .toggle 0,
        .activate 99, .filter "B", .toggle 5, .toggle 0]).rows = [1, 8] ∧
      ∃ item, ((ofCodebase scattered).run [.toggle 0, .filter "B"]).item? 0 = some item ∧
        item.expanded ∧ item.visible = false := by
  have h := rows_run_ofCodebase scattered [.toggle 0, .filter "B"]
  obtain ⟨_, _, _, hitem, hrows⟩ := h
  have hr : ((ofCodebase scattered).run [.toggle 0, .filter "B"]).rows = [1, 8] := by
    decide +kernel
  have ht : (((ofCodebase scattered).run [.toggle 0, .filter "B"]).item? 0).map
      (fun item => (item.label, item.hasChildren)) = some ("a", true) := by
    decide +kernel
  obtain ⟨item, hi, hlabel⟩ := Option.map_eq_some_iff.mp ht
  obtain ⟨hl, hc⟩ := Prod.mk.inj hlabel
  obtain ⟨hv, he⟩ := hitem 0 item hi
  refine ⟨hr, ?_, item, hi, he.mpr ⟨hc, by decide +kernel⟩, ?_⟩
  · rw [← hrows _ (by decide +kernel) (by decide +kernel), hr]
  · rw [hv, hl]
    decide +kernel

end CodeAtlas.Menu
