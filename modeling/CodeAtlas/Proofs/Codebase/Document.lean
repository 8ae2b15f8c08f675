import CodeAtlas.Proofs.Json.Layout

namespace CodeAtlas

namespace FunctionInfo

open Json

variable (layout : Layout) (d : Nat)

theorem setsWhole_documentation (text : String) :
    SetsWhole fields (layout.member d ("documentation", .str text))
      ("documentation", fun f => { f with documentation := some text }) := by
  have ho := (layout.readsWhole_str (d + 1) text).optional _ _ _ (by
    rw [layout.chars_str]
    simp [quote])
  exact ⟨_, _, rfl, layout.isMember d _,
    ho.put _ _ _ fun d (f : FunctionInfo) => { f with documentation := d }⟩

theorem setsWhole_calls (calls : List String) :
    SetsWhole fields (layout.member d ("calls", .arr (calls.map .str)))
      ("calls", fun f => { f with calls := calls }) := by
  have hs := layout.readsWhole_list (d + 1) string Json.str calls
    fun name _ => layout.readsWhole_str (d + 2) name
  have ho := hs.optional _ _ _ (by
    obtain ⟨text, he, _⟩ := layout.chars_arr (d + 1) (calls.map .str)
    simp [he])
  exact ⟨_, _, rfl, layout.isMember d _,
    ho.put _ _ _ fun c (f : FunctionInfo) => { f with calls := c.getD [] }⟩

theorem readsWhole_toJson (f : FunctionInfo) :
    ReadsWhole reader (layout.chars d f.toJson) f := by
  obtain ⟨documentation, calls⟩ := f
  have hreq : ∀ f ∈ fields, f.required = false := by simp [fields, Field.defaulted]
  have hnone : ∀ names : List String, ∀ f ∈ fields, f.required = true → f.name ∈ names :=
    fun _ f hf hr => absurd hr (by simp [hreq f hf])
  cases documentation with
  | none =>
    exact layout.readsWhole_record d fields ⟨none, []⟩ _ _
      (.cons (setsWhole_calls layout d calls) .nil) (by simp) (hnone _)
  | some doc =>
    exact layout.readsWhole_record d fields ⟨none, []⟩ _ _
      (.cons (setsWhole_documentation layout d doc) (.cons (setsWhole_calls layout d calls) .nil))
      (by simp) (hnone _)

end FunctionInfo

namespace Codebase

open Json

/-- A listing of folders and their functions, in which paths and names may repeat, as a document. -/
def listing (l : List (String × List (String × FunctionInfo))) : Json :=
  .obj (l.map fun (path, functions) =>
    (path, .obj (functions.map fun (name, info) => (name, info.toJson))))

theorem toJson_eq_listing (c : Codebase) :
    c.toJson = listing (c.folders.entries.map fun e => (e.1, e.2.entries)) := by
  rw [toJson, listing, List.map_map]
  rfl

theorem readsWhole_functions (layout : Layout) (d : Nat)
    (functions : List (String × FunctionInfo)) :
    ReadsWhole (dictionary FunctionInfo.reader)
      (layout.chars d (.obj (functions.map fun e => (e.1, e.2.toJson)))) (.ofList functions) := by
  have h := layout.readsWhole_dictionary d FunctionInfo.reader
    (functions.map fun e => (e.1, e.2.toJson, e.2)) (by
      intro m hm
      obtain ⟨e, _, rfl⟩ := List.mem_map.mp hm
      exact FunctionInfo.readsWhole_toJson layout (d + 1) e.2)
  simpa only [List.map_map, Function.comp_def, Prod.eta, List.map_id'] using h

theorem readsWhole_listing (layout : Layout) (d : Nat)
    (l : List (String × List (String × FunctionInfo))) :
    ReadsWhole (dictionary (dictionary FunctionInfo.reader)) (layout.chars d (listing l))
      (.ofList (l.map fun e => (e.1, .ofList e.2))) := by
  have h := layout.readsWhole_dictionary d (dictionary FunctionInfo.reader)
    (l.map fun e => (e.1, .obj (e.2.map fun e => (e.1, e.2.toJson)), .ofList e.2)) (by
      intro m hm
      obtain ⟨e, _, rfl⟩ := List.mem_map.mp hm
      exact readsWhole_functions layout (d + 1) e.2)
  simpa only [List.map_map, Function.comp_def, listing] using h

theorem reads_listing (l : List (String × List (String × FunctionInfo))) :
    Reads (dictionary (dictionary FunctionInfo.reader)) (compactChars (listing l))
      (.ofList (l.map fun e => (e.1, .ofList e.2))) :=
  (readsWhole_listing compactLayout 0 l).toReads

theorem entries_nested (l : List (String × List (String × FunctionInfo))) :
    (OrderedMap.ofList (l.map fun e => (e.1, OrderedMap.ofList e.2))).entries.map
        (fun e => (e.1, e.2.entries)) =
      OrderedMap.settled (l.map fun e => (e.1, OrderedMap.settled e.2)) := by
  rw [OrderedMap.entries_ofList, ← OrderedMap.settled_map OrderedMap.entries, List.map_map]
  simp only [Function.comp_def, OrderedMap.entries_ofList]

theorem ofText_of_reads (j : Json) (folders : OrderedMap String Folder)
    (h : Reads (dictionary (dictionary FunctionInfo.reader)) (compactChars j) folders) :
    ofText j.compact = if folders.isEmpty then .error .empty else .ok ⟨folders⟩ := by
  have hr := read_of_reads reader _ [] ⟨folders⟩ (h.map _ _ _ Codebase.mk) blank_nil
  rw [List.append_nil, ← compact] at hr
  rw [ofText, hr]
  rfl

/-- The text of a listing is read back as the codebase in which every path, and every name in a
folder, stands where it first came and holds what came with it last; the functions of a repeated
folder are replaced as a whole. Only the empty listing is refused. In particular the text of a
codebase is read back as that codebase. -/
theorem ofText_compact :
    (∀ l : List (String × List (String × FunctionInfo)),
      (ofText (listing l).compact).map
          (fun c => c.folders.entries.map fun e => (e.1, e.2.entries)) =
        if l = [] then .error .empty
        else .ok (OrderedMap.settled (l.map fun e => (e.1, OrderedMap.settled e.2)))) ∧
    ∀ c : Codebase, ofText c.toJson.compact = if c.isEmpty then .error .empty else .ok c := by
  constructor
  · intro l
    rw [ofText_of_reads _ _ (reads_listing l)]
    by_cases hl : l = []
    · subst hl
      rfl
    · have he : (OrderedMap.ofList (l.map fun e => (e.1, OrderedMap.ofList e.2))).isEmpty =
          false := by
        rw [OrderedMap.isEmpty_ofList, List.isEmpty_map]
        simpa using hl
      rw [he, if_neg Bool.false_ne_true, if_neg hl]
      exact congrArg Except.ok (entries_nested l)
  · intro c
    rw [toJson_eq_listing, ofText_of_reads _ _ (reads_listing _), List.map_map]
    have he : c.folders.entries.map
        ((fun e => (e.1, OrderedMap.ofList e.2)) ∘ fun e => (e.1, e.2.entries)) =
        c.folders.entries := by
      simp only [Function.comp_def, OrderedMap.ofList_entries, Prod.eta, List.map_id']
    rw [he, OrderedMap.ofList_entries]
    rfl

/-- A text that starts as the text of a codebase and ends before it does is refused for ending too
early, wherever the cut lies. -/
theorem ofText_truncated (c : Codebase) (p : String) (hp : p.toList <+: c.toJson.compact.toList)
    (hne : p ≠ c.toJson.compact) : ofText p = .error (.invalid .endOfText) := by
  have hcut : Cut p.toList (compactChars c.toJson) := by
    rw [compact, String.toList_ofList] at hp
    refine (cut_iff _ _).mpr ⟨hp, ?_⟩
    intro he
    rw [compact, ← he, String.ofList_toList] at hne
    exact hne rfl
  rw [toJson_eq_listing] at hcut
  have hstall := (readsWhole_listing compactLayout 0 _).stalls [] p.toList blank_nil hcut
  have hread : Json.read reader p = .error .endOfText := by
    rw [Json.read, reader, ← List.nil_append p.toList, hstall]
    rfl
  rw [ofText, hread]

def noted : Codebase :=
  ⟨⟨[("a", ⟨[("\x01", ⟨none, ["é"]⟩)], by decide⟩)], by decide⟩⟩

theorem ofText_truncated_noted :
    noted.toJson.compact = "\x7b\"a\":\x7b\"\\u0001\":\x7b\"calls\":[\"é\"]\x7d\x7d\x7d" ∧
      ofText "\x7b\"a\":\x7b\"\\u00" = .error (.invalid .endOfText) ∧
      ofText "\x7b\"a\":\x7b\"\\u0001\":\x7b\"calls\":[\"é\"]\x7d" =
        .error (.invalid .endOfText) := by
  have ht : noted.toJson.compact =
      "\x7b\"a\":\x7b\"\\u0001\":\x7b\"calls\":[\"é\"]\x7d\x7d\x7d" := by
    decide +kernel
  refine ⟨ht, ?_, ?_⟩
  · apply ofText_truncated noted
    · rw [ht]
      decide
    · rw [ht]
      decide
  · apply ofText_truncated noted
    · rw [ht]
      decide
    · rw [ht]
      decide

end Codebase

end CodeAtlas
