namespace CodeAtlas

structure OrderedMap (κ υ : Type) where
  entries : List (κ × υ)
  distinct : (entries.map Prod.fst).Nodup
deriving DecidableEq

namespace OrderedMap

variable {κ υ : Type} [DecidableEq κ]

def empty : OrderedMap κ υ := ⟨[], List.nodup_nil⟩

def keys (m : OrderedMap κ υ) : List κ := m.entries.map Prod.fst

def values (m : OrderedMap κ υ) : List υ := m.entries.map Prod.snd

def size (m : OrderedMap κ υ) : Nat := m.entries.length

def isEmpty (m : OrderedMap κ υ) : Bool := m.entries.isEmpty

def get? (m : OrderedMap κ υ) (k : κ) : Option υ := m.entries.lookup k

def contains (m : OrderedMap κ υ) (k : κ) : Bool := (m.get? k).isSome

def place (k : κ) (v : υ) : List (κ × υ) → List (κ × υ)
  | [] => [(k, v)]
  | e :: rest => if e.1 = k then (k, v) :: rest else e :: place k v rest

theorem mem_keys_place (k : κ) (v : υ) (l : List (κ × υ)) (x : κ) :
    x ∈ (place k v l).map Prod.fst ↔ x = k ∨ x ∈ l.map Prod.fst := by
  induction l with
  | nil => simp [place]
  | cons e rest ih =>
    by_cases h : e.1 = k
    · simp [place, h]
    · simp only [place, h, if_false, List.map_cons, List.mem_cons, ih]
      exact or_left_comm

theorem nodup_keys_place (k : κ) (v : υ) (l : List (κ × υ)) (h : (l.map Prod.fst).Nodup) :
    ((place k v l).map Prod.fst).Nodup := by
  induction l with
  | nil => simp [place]
  | cons e rest ih =>
    obtain ⟨hn, hr⟩ := List.nodup_cons.mp h
    by_cases he : e.1 = k
    · subst he
      simpa [place] using h
    · simp only [place, he, if_false, List.map_cons, List.nodup_cons, mem_keys_place, not_or]
      exact ⟨⟨not_false, hn⟩, ih hr⟩

/-- A new key goes to the end; a key that is present keeps its place and changes its value. -/
def insert (m : OrderedMap κ υ) (k : κ) (v : υ) : OrderedMap κ υ :=
  ⟨place k v m.entries, nodup_keys_place k v m.entries m.distinct⟩

def ofList (l : List (κ × υ)) : OrderedMap κ υ :=
  l.foldl (fun m e => m.insert e.1 e.2) empty

end OrderedMap

def firstOccurrences {α : Type} [DecidableEq α] (l : List α) : List α :=
  l.foldl (fun seen a => if a ∈ seen then seen else seen ++ [a]) []

end CodeAtlas
