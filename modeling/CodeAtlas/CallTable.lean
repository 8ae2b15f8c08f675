import CodeAtlas.Codebase.Basic

namespace CodeAtlas

/-- Who calls whom by function name, over all folders; each callee is listed once. -/
structure CallTable where
  callers : OrderedMap String (List String)

namespace CallTable

def empty : CallTable := ⟨.empty⟩

def size (t : CallTable) : Nat := t.callers.size

def isEmpty (t : CallTable) : Bool := t.callers.isEmpty

def callees? (t : CallTable) (caller : String) : Option (List String) :=
  t.callers.get? caller

def add (t : CallTable) (name : String) (info : FunctionInfo) : CallTable :=
  ⟨t.callers.insert name (firstOccurrences ((t.callees? name).getD [] ++ info.calls))⟩

def ofCodebase (c : Codebase) : CallTable :=
  (c.folders.values.flatMap OrderedMap.entries).foldl (fun t e => t.add e.1 e.2) empty

def pairs (t : CallTable) : List (String × String) :=
  t.callers.entries.flatMap fun (caller, callees) => callees.map (caller, ·)

def without (name : String) (rows : List (String × List String)) : List (String × List String) :=
  rows.filter (·.1 ≠ name)

theorem length_without_lt {name : String} {rows : List (String × List String)}
    {callees : List String} (h : rows.lookup name = some callees) :
    (without name rows).length < rows.length := by
  obtain ⟨l₁, l₂, hl, _⟩ := List.lookup_eq_some_iff.mp h
  subst hl
  simp only [without, List.filter_append, List.length_append, List.filter_cons, ne_eq,
    not_true_eq_false, decide_false, Bool.false_eq_true, if_false, List.length_cons]
  have h₁ := List.length_filter_le (fun e : String × List String => decide (¬e.1 = name)) l₁
  have h₂ := List.length_filter_le (fun e : String × List String => decide (¬e.1 = name)) l₂
  omega

/-- Walk breadth first through the names waiting in a queue. A caller is listed when it is first
met and its row is then taken out, so a name met again, or one without a row, adds nothing. -/
def walk (rows : List (String × List String)) : (queue : List String) → List (String × List String)
  | [] => []
  | name :: queue =>
    match _h : rows.lookup name with
    | none => walk rows queue
    | some callees => (name, callees) :: walk (without name rows) (queue ++ callees)
termination_by queue => (rows.length, queue.length)
decreasing_by
  · exact Prod.Lex.right _ (Nat.lt_succ_self _)
  · exact Prod.Lex.left _ _ (length_without_lt _h)

theorem mem_keys_walk {rows : List (String × List String)} {queue : List String} {name : String}
    (h : name ∈ (walk rows queue).map Prod.fst) : name ∈ rows.map Prod.fst := by
  fun_induction walk rows queue with
  | case1 => simp at h
  | case2 rows current queue _ ih => exact ih h
  | case3 rows current queue callees hc ih =>
    rw [List.map_cons, List.mem_cons] at h
    rcases h with h | h
    · obtain ⟨l₁, l₂, hl, _⟩ := List.lookup_eq_some_iff.mp hc
      simp [hl, h]
    · obtain ⟨e, he, hn⟩ := List.mem_map.mp (ih h)
      exact List.mem_map.mpr ⟨e, (List.mem_filter.mp he).1, hn⟩

theorem nodup_keys_walk (rows : List (String × List String)) (queue : List String) :
    ((walk rows queue).map Prod.fst).Nodup := by
  fun_induction walk rows queue with
  | case1 => simp
  | case2 rows current queue _ ih => exact ih
  | case3 rows current queue callees _ ih =>
    rw [List.map_cons, List.nodup_cons]
    refine ⟨fun hm => ?_, ih⟩
    obtain ⟨e, he, hn⟩ := List.mem_map.mp (mem_keys_walk hm)
    simpa [hn] using (List.mem_filter.mp he).2

/-- The callers that can be reached from `entry`, itself included, nearest first. -/
def reachableFrom (t : CallTable) (entry : String) : CallTable :=
  ⟨⟨walk t.callers.entries [entry], nodup_keys_walk _ _⟩⟩

end CallTable

end CodeAtlas
