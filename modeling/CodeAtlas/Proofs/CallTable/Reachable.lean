import Mathlib.Logic.Relation
import Mathlib.Order.Lattice.Nat
import CodeAtlas.CallTable
import CodeAtlas.Proofs.OrderedMap

namespace CodeAtlas.CallTable

/-- A function calls another one by name. The callee need not have a row of its own. -/
def Calls (t : CallTable) (a b : String) : Prop :=
  ∃ callees, t.callees? a = some callees ∧ b ∈ callees

def Way (t : CallTable) : (n : Nat) → (a b : String) → Prop
  | 0, a, b => a = b
  | n + 1, a, b => ∃ c, t.Way n a c ∧ t.Calls c b

/-- The number of calls on a shortest way, and zero where there is no way. -/
noncomputable def distance (t : CallTable) (a b : String) : Nat :=
  sInf {n | t.Way n a b}

theorem exists_way_iff (t : CallTable) (a b : String) :
    (∃ n, t.Way n a b) ↔ Relation.ReflTransGen t.Calls a b := by
  constructor
  · intro ⟨n, hw⟩
    induction n generalizing b with
    | zero =>
      cases hw
      exact Relation.ReflTransGen.refl
    | succ n ih =>
      obtain ⟨c, hc, hb⟩ := hw
      exact (ih c hc).tail hb
  · intro h
    induction h with
    | refl => exact ⟨0, rfl⟩
    | tail _ hb ih =>
      obtain ⟨n, hn⟩ := ih
      exact ⟨n + 1, _, hn, hb⟩

theorem distance_le (t : CallTable) (n : Nat) (a b : String) (h : t.Way n a b) :
    t.distance a b ≤ n :=
  Nat.sInf_le h

theorem way_distance (t : CallTable) (a b : String) (h : Relation.ReflTransGen t.Calls a b) :
    t.Way (t.distance a b) a b :=
  Nat.sInf_mem ((t.exists_way_iff a b).mpr h)

theorem lookup_without (name x : String) (rows : List (String × List String)) :
    (without name rows).lookup x = if x = name then none else rows.lookup x := by
  induction rows with
  | nil => simp [without]
  | cons e rows ih =>
    obtain ⟨a, callees⟩ := e
    rw [without] at ih ⊢
    rw [List.filter_cons, OrderedMap.lookup_cons_ite]
    by_cases ha : a = name
    · simp only [ha, ne_eq, not_true_eq_false, decide_false, Bool.false_eq_true, if_false, ih]
      split <;> rfl
    · simp only [ha, ne_eq, not_false_eq_true, decide_true, if_true, OrderedMap.lookup_cons_ite, ih]
      by_cases hx : x = a
      · simp [hx, ha]
      · simp [hx]

theorem lookup_walk (rows : List (String × List String)) (queue : List String) (x : String)
    (callees : List String) (h : (walk rows queue).lookup x = some callees) :
    rows.lookup x = some callees := by
  fun_induction walk rows queue with
  | case1 => simp at h
  | case2 rows name queue _ ih => exact ih h
  | case3 rows name queue found hr ih =>
    rw [OrderedMap.lookup_cons_ite] at h
    by_cases hx : x = name
    · rw [if_pos hx] at h
      rw [hx, hr, h]
    · rw [if_neg hx] at h
      have hw := ih h
      rwa [lookup_without, if_neg hx] at hw

/-- A search from `entry` has come to the names `n` calls away. Those that are not done yet wait in
`near`, and in `next` there wait names that are a call further. -/
structure Frontier (t : CallTable) (entry : String) (rows : List (String × List String))
    (near next : List String) (n : Nat) : Prop where
  row_eq : ∀ x callees, rows.lookup x = some callees → t.callees? x = some callees
  near_way : ∀ x ∈ near, t.Way n entry x
  next_way : ∀ x ∈ next, t.Way (n + 1) entry x
  le_of_way : ∀ x, rows.lookup x ≠ none → ∀ k, t.Way k entry x → n ≤ k
  mem_near : ∀ x, rows.lookup x ≠ none → t.Way n entry x → x ∈ near
  mem_queue : ∀ a b, t.Calls a b → rows.lookup a = none → rows.lookup b ≠ none → b ∈ near ++ next

theorem frontier_start (t : CallTable) (entry : String) :
    Frontier t entry t.callers.entries [entry] [] 0 where
  row_eq _ _ h := h
  near_way x hx := (List.mem_singleton.mp hx).symm
  next_way x hx := absurd hx List.not_mem_nil
  le_of_way _ _ k _ := Nat.zero_le k
  mem_near x _ hw := List.mem_singleton.mpr hw.symm
  mem_queue a b hab ha _ := by
    obtain ⟨callees, hc, _⟩ := hab
    exact absurd (hc.symm.trans ha) (Option.some_ne_none callees)

variable {t : CallTable} {entry : String} {rows : List (String × List String)}
  {near next : List String} {n : Nat}

theorem Frontier.deeper (h : Frontier t entry rows [] next n) :
    Frontier t entry rows next [] (n + 1) where
  row_eq := h.row_eq
  near_way := h.next_way
  next_way x hx := absurd hx List.not_mem_nil
  le_of_way x hx k hw := by
    have hle := h.le_of_way x hx k hw
    by_contra hlt
    have hk : k = n := by omega
    exact List.not_mem_nil (h.mem_near x hx (hk ▸ hw))
  mem_near x hx hw := by
    obtain ⟨a, ha, hax⟩ := hw
    have hr : rows.lookup a = none := by
      by_contra hr
      exact List.not_mem_nil (h.mem_near a hr ha)
    exact h.mem_queue a x hax hr hx
  mem_queue a b hab ha hb := by
    rw [List.append_nil]
    exact h.mem_queue a b hab ha hb

/-- When nothing waits, whatever has a row left is out of reach. -/
theorem Frontier.no_way (h : Frontier t entry rows [] [] n) (x : String)
    (hx : rows.lookup x ≠ none) (k : Nat) : ¬ t.Way k entry x := by
  intro hw
  have hdeep : ∀ j, Frontier t entry rows [] [] (n + j) := by
    intro j
    induction j with
    | zero => exact h
    | succ j ih => exact ih.deeper
  have hle := (hdeep (k + 1)).le_of_way x hx k hw
  omega

theorem Frontier.skip (name : String) (h : Frontier t entry rows (name :: near) next n)
    (hr : rows.lookup name = none) : Frontier t entry rows near next n where
  row_eq := h.row_eq
  near_way x hx := h.near_way x (List.mem_cons_of_mem name hx)
  next_way := h.next_way
  le_of_way := h.le_of_way
  mem_near x hx hw := by
    have hne : x ≠ name := fun he => hx (he ▸ hr)
    exact List.mem_of_ne_of_mem hne (h.mem_near x hx hw)
  mem_queue a b hab ha hb := by
    have hne : b ≠ name := fun he => hb (he ▸ hr)
    exact List.mem_of_ne_of_mem hne (h.mem_queue a b hab ha hb)

/-- The callees of a name that is listed wait one call further. -/
theorem Frontier.visit (name : String) (callees : List String)
    (h : Frontier t entry rows (name :: near) next n) (hr : rows.lookup name = some callees) :
    Frontier t entry (without name rows) near (next ++ callees) n := by
  have hleft : ∀ x, (without name rows).lookup x ≠ none → x ≠ name ∧ rows.lookup x ≠ none := by
    intro x hx
    rw [lookup_without] at hx
    by_cases he : x = name
    · exact absurd (if_pos he) hx
    · exact ⟨he, by rwa [if_neg he] at hx⟩
  refine ⟨?_, ?_, ?_, ?_, ?_, ?_⟩
  · intro x found hx
    have hn := hleft x (by rw [hx]; exact Option.some_ne_none found)
    rw [lookup_without, if_neg hn.1] at hx
    exact h.row_eq x found hx
  · intro x hx
    exact h.near_way x (List.mem_cons_of_mem name hx)
  · intro x hx
    obtain hx | hx := List.mem_append.mp hx
    · exact h.next_way x hx
    · exact ⟨name, h.near_way name List.mem_cons_self, callees, h.row_eq name callees hr, hx⟩
  · intro x hx k hw
    exact h.le_of_way x (hleft x hx).2 k hw
  · intro x hx hw
    exact List.mem_of_ne_of_mem (hleft x hx).1 (h.mem_near x (hleft x hx).2 hw)
  · intro a b hab ha hb
    obtain ⟨hne, hbr⟩ := hleft b hb
    rw [← List.append_assoc, List.mem_append]
    by_cases he : a = name
    · subst he
      obtain ⟨found, hf, hmem⟩ := hab
      have hfc : found = callees := Option.some.inj (hf.symm.trans (h.row_eq a callees hr))
      exact Or.inr (hfc ▸ hmem)
    · rw [lookup_without, if_neg he] at ha
      exact Or.inl (List.mem_of_ne_of_mem hne (h.mem_queue a b hab ha hbr))

theorem Frontier.exists_head (name : String) (queue : List String)
    (h : Frontier t entry rows near next n) (hq : name :: queue = near ++ next) :
    ∃ near' next' k, queue = near' ++ next' ∧ Frontier t entry rows (name :: near') next' k := by
  cases near with
  | nil =>
    have hnext : next = name :: queue := hq.symm
    subst hnext
    exact ⟨queue, [], n + 1, by simp, h.deeper⟩
  | cons a near =>
    obtain ⟨ha, hqueue⟩ := List.cons.inj hq
    subst ha
    exact ⟨near, next, n, hqueue, h⟩

theorem Frontier.mem_keys_walk_iff (queue : List String) (h : Frontier t entry rows near next n)
    (hq : queue = near ++ next) (x : String) :
    x ∈ (walk rows queue).map Prod.fst ↔
      rows.lookup x ≠ none ∧ Relation.ReflTransGen t.Calls entry x := by
  fun_induction walk rows queue generalizing near next n with
  | case1 rows =>
    obtain ⟨hnear, hnext⟩ := List.append_eq_nil_iff.mp hq.symm
    subst hnear hnext
    rw [List.map_nil, ← exists_way_iff]
    refine ⟨fun hx => absurd hx List.not_mem_nil, ?_⟩
    rintro ⟨hx, k, hw⟩
    exact absurd hw (h.no_way x hx k)
  | case2 rows name queue hr ih =>
    obtain ⟨near', next', k, hq', h'⟩ := h.exists_head name queue hq
    exact ih (h'.skip name hr) hq'
  | case3 rows name queue callees hr ih =>
    obtain ⟨near', next', k, hq', h'⟩ := h.exists_head name queue hq
    have hqueue : queue ++ callees = near' ++ (next' ++ callees) := by
      rw [hq', List.append_assoc]
    rw [List.map_cons, List.mem_cons, ih (h'.visit name callees hr) hqueue, lookup_without]
    by_cases hx : x = name
    · subst hx
      have hw := h'.near_way x List.mem_cons_self
      simp [hr, (t.exists_way_iff entry x).mp ⟨k, hw⟩]
    · simp [hx]

theorem Frontier.pairwise_walk (queue : List String) (h : Frontier t entry rows near next n)
    (hq : queue = near ++ next) :
    ((walk rows queue).map Prod.fst).Pairwise
      (fun a b => t.distance entry a ≤ t.distance entry b) := by
  fun_induction walk rows queue generalizing near next n with
  | case1 rows => exact List.Pairwise.nil
  | case2 rows name queue hr ih =>
    obtain ⟨near', next', k, hq', h'⟩ := h.exists_head name queue hq
    exact ih (h'.skip name hr) hq'
  | case3 rows name queue callees hr ih =>
    obtain ⟨near', next', k, hq', h'⟩ := h.exists_head name queue hq
    have hv := h'.visit name callees hr
    have hqueue : queue ++ callees = near' ++ (next' ++ callees) := by
      rw [hq', List.append_assoc]
    rw [List.map_cons, List.pairwise_cons]
    refine ⟨?_, ih hv hqueue⟩
    intro x hx
    obtain ⟨hrow, hreach⟩ := (hv.mem_keys_walk_iff _ hqueue x).mp hx
    calc t.distance entry name ≤ k := t.distance_le k _ _ (h'.near_way name List.mem_cons_self)
      _ ≤ t.distance entry x := hv.le_of_way x hrow _ (t.way_distance entry x hreach)

theorem mem_keys_reachableFrom (t : CallTable) (entry x : String) :
    x ∈ (t.reachableFrom entry).callers.keys ↔
      t.callees? x ≠ none ∧ Relation.ReflTransGen t.Calls entry x :=
  (frontier_start t entry).mem_keys_walk_iff [entry] rfl x

theorem callees?_reachableFrom (t : CallTable) (entry x : String)
    (h : Relation.ReflTransGen t.Calls entry x) :
    (t.reachableFrom entry).callees? x = t.callees? x := by
  cases hr : (t.reachableFrom entry).callees? x with
  | some callees => exact (lookup_walk _ _ x callees hr).symm
  | none =>
    by_contra hne
    have hk := (mem_keys_reachableFrom t entry x).mpr ⟨Ne.symm hne, h⟩
    obtain ⟨e, he, hx⟩ := List.mem_map.mp hk
    subst hx
    exact Option.some_ne_none e.2 (((OrderedMap.mem_entries_iff _ e.1 e.2).mp he).symm.trans hr)

theorem isEmpty_reachableFrom (t : CallTable) (entry : String) :
    (t.reachableFrom entry).isEmpty ↔ t.callees? entry = none := by
  have hkeys : (t.reachableFrom entry).isEmpty ↔ (t.reachableFrom entry).callers.keys = [] := by
    rw [isEmpty, OrderedMap.isEmpty, OrderedMap.keys, List.isEmpty_iff, List.map_eq_nil_iff]
  rw [hkeys, List.eq_nil_iff_forall_not_mem]
  simp only [mem_keys_reachableFrom, not_and]
  constructor
  · intro h
    by_contra hne
    exact h entry hne Relation.ReflTransGen.refl
  · intro hnone x hx hreach
    obtain he | ⟨b, ⟨callees, hc, _⟩, _⟩ := hreach.cases_head
    · exact hx (he ▸ hnone)
    · exact absurd (hc.symm.trans hnone) (Option.some_ne_none callees)

/-- A search lists exactly the callers that can be reached from its entry, the entry included, and
nothing at all if the entry is no caller. Each is listed once, with all its callees in order, and
no caller comes before one that is fewer calls away. -/
theorem reachableFrom_nearest_first (t : CallTable) (entry : String) :
    (∀ x, x ∈ (t.reachableFrom entry).callers.keys ↔
        t.callees? x ≠ none ∧ Relation.ReflTransGen t.Calls entry x) ∧
      ((t.reachableFrom entry).isEmpty ↔ t.callees? entry = none) ∧
      (t.reachableFrom entry).callers.keys.Nodup ∧
      (∀ x ∈ (t.reachableFrom entry).callers.keys,
        (t.reachableFrom entry).callees? x = t.callees? x) ∧
      (t.reachableFrom entry).callers.keys.Pairwise
        (fun a b => t.distance entry a ≤ t.distance entry b) := by
  refine ⟨mem_keys_reachableFrom t entry, isEmpty_reachableFrom t entry, ?_, ?_, ?_⟩
  · exact (t.reachableFrom entry).callers.distinct
  · intro x hx
    exact callees?_reachableFrom t entry x ((mem_keys_reachableFrom t entry x).mp hx).2
  · exact (frontier_start t entry).pairwise_walk [entry] rfl

/-- A function that calls itself, two cycles, a callee without a row, and a caller that nothing
calls. -/
def tangled : CallTable :=
  ⟨⟨[("f", ["g", "f", "h"]), ("alone", ["f"]), ("h", ["k"]), ("g", ["missing", "h", "f"]),
    ("k", ["f"])], by decide⟩⟩

theorem reachableFrom_nearest_first_tangled :
    "k" ∈ (tangled.reachableFrom "f").callers.keys ∧
      (tangled.reachableFrom "f").callees? "k" = some ["f"] ∧
      (tangled.reachableFrom "missing").isEmpty := by
  obtain ⟨hmem, _, _, hcallees, _⟩ := reachableFrom_nearest_first tangled "f"
  have hfh : tangled.Calls "f" "h" := ⟨_, rfl, by decide⟩
  have hhk : tangled.Calls "h" "k" := ⟨_, rfl, by decide⟩
  have hk := (hmem "k").mpr ⟨by decide, (Relation.ReflTransGen.single hfh).tail hhk⟩
  exact ⟨hk, hcallees "k" hk, (reachableFrom_nearest_first tangled "missing").2.1.mpr rfl⟩

theorem walk_cons_of_none (rows : List (String × List String)) (name : String)
    (queue : List String) (h : rows.lookup name = none) :
    walk rows (name :: queue) = walk rows queue := by
  rw [walk]
  split
  · rfl
  · next callees hc => exact absurd (hc.symm.trans h) (Option.some_ne_none callees)

theorem walk_cons_of_some (rows : List (String × List String)) (name : String)
    (callees queue : List String) (h : rows.lookup name = some callees) :
    walk rows (name :: queue) =
      (name, callees) :: walk (without name rows) (queue ++ callees) := by
  rw [walk]
  split
  · next hn => exact absurd (h.symm.trans hn) (Option.some_ne_none callees)
  · next found hf =>
    have he : found = callees := Option.some.inj (hf.symm.trans h)
    rw [he]

/-- Two tables that agree on a set of names closed under calls are searched alike from within it. -/
theorem walk_congr (inside : String → Prop) (rows rows' : List (String × List String))
    (queue : List String) (hq : ∀ x ∈ queue, inside x)
    (hrows : ∀ x, inside x → rows.lookup x = rows'.lookup x)
    (hclosed : ∀ x callees, inside x → rows.lookup x = some callees → ∀ y ∈ callees, inside y) :
    walk rows queue = walk rows' queue := by
  fun_induction walk rows queue generalizing rows' with
  | case1 rows => rw [walk]
  | case2 rows name queue hr ih =>
    have hin : inside name := hq name List.mem_cons_self
    rw [walk_cons_of_none rows' name queue ((hrows name hin).symm.trans hr)]
    exact ih rows' (fun x hx => hq x (List.mem_cons_of_mem name hx)) hrows hclosed
  | case3 rows name queue callees hr ih =>
    have hin : inside name := hq name List.mem_cons_self
    rw [walk_cons_of_some rows' name callees queue ((hrows name hin).symm.trans hr)]
    congr 1
    apply ih
    · intro x hx
      obtain hx | hx := List.mem_append.mp hx
      · exact hq x (List.mem_cons_of_mem name hx)
      · exact hclosed name callees hin hr x hx
    · intro x hx
      rw [lookup_without, lookup_without, hrows x hx]
    · intro x found hx hf
      rw [lookup_without] at hf
      split at hf
      · cases hf
      · exact hclosed x found hx hf

theorem reachableFrom_within (t : CallTable) (entry x : String)
    (h : Relation.ReflTransGen t.Calls entry x) :
    (t.reachableFrom entry).reachableFrom x = t.reachableFrom x := by
  have hw : walk (t.reachableFrom entry).callers.entries [x] = walk t.callers.entries [x] := by
    apply walk_congr (Relation.ReflTransGen t.Calls entry)
    · intro y hy
      rwa [List.mem_singleton.mp hy]
    · intro y hy
      exact callees?_reachableFrom t entry y hy
    · intro y callees hy hc z hz
      have ht : t.callees? y = some callees := (callees?_reachableFrom t entry y hy).symm.trans hc
      exact hy.tail ⟨callees, ht, hz⟩
  simp only [reachableFrom] at hw ⊢
  simp only [hw]

/-- To search again within the result of a search, from any caller in it, gives what the whole
table gives, in the same order. From the entry it gives the result itself. -/
theorem reachableFrom_restricts (t : CallTable) (entry : String) :
    (∀ x ∈ (t.reachableFrom entry).callers.keys,
        (t.reachableFrom entry).reachableFrom x = t.reachableFrom x) ∧
      (t.reachableFrom entry).reachableFrom entry = t.reachableFrom entry := by
  refine ⟨?_, reachableFrom_within t entry entry Relation.ReflTransGen.refl⟩
  intro x hx
  exact reachableFrom_within t entry x ((mem_keys_reachableFrom t entry x).mp hx).2

/-- From `g` the search meets `h` before `f`, against the order of the first search. Nobody calls
`alone`, and the first search has left it out. -/
theorem reachableFrom_restricts_tangled :
    "g" ∈ (tangled.reachableFrom "f").callers.keys ∧
      ("alone" ∈ tangled.callers.keys ∧ "alone" ∉ (tangled.reachableFrom "f").callers.keys) ∧
      (tangled.reachableFrom "f").reachableFrom "g" = tangled.reachableFrom "g" := by
  have hfg : tangled.Calls "f" "g" := ⟨_, rfl, by decide⟩
  have hg := (mem_keys_reachableFrom tangled "f" "g").mpr
    ⟨by decide, Relation.ReflTransGen.single hfg⟩
  have huncalled : ∀ row ∈ tangled.callers.entries, "alone" ∉ row.2 := by decide
  have halone : "alone" ∉ (tangled.reachableFrom "f").callers.keys := by
    intro h
    rcases ((mem_keys_reachableFrom tangled "f" "alone").mp h).2.cases_tail with
      hself | ⟨caller, _, callees, hcallees, hmem⟩
    · exact absurd hself (by decide)
    · exact huncalled _ ((OrderedMap.mem_entries_iff _ caller callees).mpr hcallees) hmem
  exact ⟨hg, ⟨by decide, halone⟩, (reachableFrom_restricts tangled "f").1 "g" hg⟩

end CodeAtlas.CallTable
