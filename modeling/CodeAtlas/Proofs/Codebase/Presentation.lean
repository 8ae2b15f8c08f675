import CodeAtlas.Proofs.Json.Grammar

namespace CodeAtlas.FunctionInfo

open Json

inductive DocumentationText : Option String → List Char → Prop where
  | missing : DocumentationText none nullText
  | given {s : String} {text : List Char} (h : Spelled s text) : DocumentationText (some s) text

inductive CallsText : List String → List Char → Prop where
  | missing : CallsText [] nullText
  | given {calls : List String} {parts : List (List Char)} {text : List Char}
      (h : List.Forall₂ Spelled calls parts) (ht : Enclosed ']' true parts text) :
      CallsText calls ('[' :: text)

/-- The members of an object, by key and text of the value, that stand for a function: each field at
most once, a field left out only if there is nothing to say, and anything else in between. -/
structure Tells (f : FunctionInfo) (members : List (String × List Char)) : Prop where
  documentation_once : (members.map Prod.fst).count "documentation" ≤ 1
  calls_once : (members.map Prod.fst).count "calls" ≤ 1
  documentation_text : ∀ text, ("documentation", text) ∈ members →
    DocumentationText f.documentation text
  calls_text : ∀ text, ("calls", text) ∈ members → CallsText f.calls text
  documentation_missing : "documentation" ∉ members.map Prod.fst → f.documentation = none
  calls_missing : "calls" ∉ members.map Prod.fst → f.calls = []
  others : ∀ m ∈ members, m.1 ≠ "documentation" → m.1 ≠ "calls" → ValueText m.2

inductive Lists (f : FunctionInfo) : List (List Char) → Prop where
  | nothing (hd : f.documentation = none) (hc : f.calls = []) : Lists f []
  | documentation {d : List Char} (hd : DocumentationText f.documentation d) (hc : f.calls = []) :
      Lists f [d]
  | both {d c : List Char} (hd : DocumentationText f.documentation d) (hc : CallsText f.calls c) :
      Lists f [d, c]

inductive Presents (f : FunctionInfo) : List Char → Prop where
  | object {members : List (String × List Char)} {parts : List (List Char)} {text : List Char}
      (h : f.Tells members) (hm : List.Forall₂ (fun m part => Entry m.1 m.2 part) members parts)
      (ht : Enclosed '}' true parts text) : Presents f ('{' :: text)
  | array {items : List (List Char)} {text : List Char} (h : f.Lists items)
      (ht : Enclosed ']' true items text) : Presents f ('[' :: text)

def setDocumentation (d : Option String) (f : FunctionInfo) : FunctionInfo :=
  { f with documentation := d }

def setCalls (calls : List String) (f : FunctionInfo) : FunctionInfo :=
  { f with calls := calls }

theorem reads_documentation (d : Option String) (text : List Char) (h : DocumentationText d text) :
    Reads (Field.put (Json.optional string) setDocumentation) text (setDocumentation d) := by
  cases h with
  | missing => exact (reads_optional_null string).put _ _ _ setDocumentation
  | @given s _ h =>
    have hn : text.head? ≠ some 'n' := by
      obtain ⟨inside, rfl, _⟩ := h.quoted
      simp
    exact ((reads_spelled s text h).optional _ _ _ hn).put _ _ _ setDocumentation

theorem reads_calls (calls : List String) (text : List Char) (h : CallsText calls text) :
    Reads (Field.put (Json.optional (list string)) fun c => setCalls (c.getD [])) text
      (setCalls calls) := by
  cases h with
  | missing => exact (reads_optional_null (list string)).put _ _ _ fun c => setCalls (c.getD [])
  | @given _ parts text h ht =>
    have hparts : List.Forall₂ (Reads string) parts calls :=
      (h.imp fun s part hs => reads_spelled s part hs).flip
    have hr := (reads_list string parts calls hparts text ht).optional _ _ _ (by simp)
    exact hr.put _ _ _ fun c => setCalls (c.getD [])

/-- What reading a member does to a function on the way to `f`. -/
def effect (f : FunctionInfo) (key : String) : Option (String × (FunctionInfo → FunctionInfo)) :=
  if key = "documentation" then some (key, setDocumentation f.documentation)
  else if key = "calls" then some (key, setCalls f.calls)
  else none

theorem effect_of_ne (f : FunctionInfo) (key : String) (hd : key ≠ "documentation")
    (hc : key ≠ "calls") : f.effect key = none := by
  rw [effect, if_neg hd, if_neg hc]

theorem Tells.effect (f : FunctionInfo) (members : List (String × List Char))
    (h : f.Tells members) (m : String × List Char) (hmem : m ∈ members) (part : List Char)
    (hm : Entry m.1 m.2 part) : Effect fields part (f.effect m.1) := by
  obtain ⟨key, text⟩ := m
  by_cases hd : key = "documentation"
  · subst hd
    exact .field rfl hm (reads_documentation _ _ (h.documentation_text text hmem))
  by_cases hc : key = "calls"
  · subst hc
    exact .field rfl hm (reads_calls _ _ (h.calls_text text hmem))
  · have hf : fields.find? (·.name == key) = none := by
      simp [fields, Field.defaulted, Ne.symm hd, Ne.symm hc]
    rw [effect_of_ne f key hd hc]
    exact .other hf hm (reads_skipped text (h.others _ hmem hd hc))

theorem forall₂_effects (f : FunctionInfo) (members : List (String × List Char))
    (parts : List (List Char)) (hm : List.Forall₂ (fun m part => Entry m.1 m.2 part) members parts)
    (h : ∀ m ∈ members, ∀ part, Entry m.1 m.2 part → Effect fields part (f.effect m.1)) :
    List.Forall₂ (Effect fields) parts (members.map fun m => f.effect m.1) := by
  induction hm with
  | nil => exact .nil
  | cons hp _ ih =>
    rw [List.forall_mem_cons] at h
    exact .cons (h.1 _ hp) (ih h.2)

theorem keys_effects (f : FunctionInfo) (members : List (String × List Char)) :
    (members.map fun m => f.effect m.1).reduceOption.map Prod.fst =
      (members.map Prod.fst).filter fun key => key = "documentation" ∨ key = "calls" := by
  induction members with
  | nil => rfl
  | cons m members ih =>
    rw [List.map_cons, List.map_cons]
    by_cases hd : m.1 = "documentation"
    · rw [hd, effect, if_pos rfl, List.reduceOption_cons_of_some, List.map_cons, ih,
        List.filter_cons_of_pos (by decide)]
    by_cases hc : m.1 = "calls"
    · rw [hc, effect, if_neg (by decide), if_pos rfl, List.reduceOption_cons_of_some, List.map_cons,
        ih, List.filter_cons_of_pos (by decide)]
    · rw [effect_of_ne f m.1 hd hc, List.reduceOption_cons_of_none, ih,
        List.filter_cons_of_neg (by simp [hd, hc])]

theorem Tells.nodup_keys (f : FunctionInfo) (members : List (String × List Char))
    (h : f.Tells members) :
    ((members.map fun m => f.effect m.1).reduceOption.map Prod.fst).Nodup := by
  rw [keys_effects, List.nodup_iff_count_le_one]
  intro key
  by_cases hd : key = "documentation"
  · subst hd
    exact (List.Sublist.count_le _ List.filter_sublist).trans h.documentation_once
  by_cases hc : key = "calls"
  · subst hc
    exact (List.Sublist.count_le _ List.filter_sublist).trans h.calls_once
  · rw [List.count_eq_zero_of_not_mem]
    · exact Nat.zero_le 1
    · simp [hd, hc]

theorem foldl_effects (f g : FunctionInfo) (members : List (String × List Char))
    (hd : "documentation" ∉ members.map Prod.fst → g.documentation = f.documentation)
    (hc : "calls" ∉ members.map Prod.fst → g.calls = f.calls) :
    (members.map fun m => f.effect m.1).reduceOption.foldl (fun s e => e.2 s) g = f := by
  induction members generalizing g with
  | nil =>
    obtain ⟨documentation, calls⟩ := g
    obtain rfl : documentation = f.documentation := hd List.not_mem_nil
    obtain rfl : calls = f.calls := hc List.not_mem_nil
    rfl
  | cons m members ih =>
    rw [List.map_cons]
    by_cases hmd : m.1 = "documentation"
    · rw [effect, if_pos hmd, List.reduceOption_cons_of_some, List.foldl_cons]
      exact ih _ (fun _ => rfl) fun hm => hc (by simpa [hmd] using hm)
    by_cases hmc : m.1 = "calls"
    · rw [effect, if_neg hmd, if_pos hmc, List.reduceOption_cons_of_some, List.foldl_cons]
      exact ih _ (fun hm => hd (by simpa [hmc] using hm)) fun _ => rfl
    · rw [effect_of_ne f m.1 hmd hmc, List.reduceOption_cons_of_none]
      refine ih g (fun hm => hd ?_) fun hm => hc ?_
      · rw [List.map_cons, List.mem_cons, not_or]
        exact ⟨Ne.symm hmd, hm⟩
      · rw [List.map_cons, List.mem_cons, not_or]
        exact ⟨Ne.symm hmc, hm⟩

theorem not_required (f : Json.Field FunctionInfo) (hf : f ∈ fields) : f.required = false := by
  simp only [fields, Field.defaulted, List.mem_cons, List.not_mem_nil, or_false] at hf
  rcases hf with rfl | rfl
  all_goals rfl

theorem Presents.reads (f : FunctionInfo) (text : List Char) (h : f.Presents text) :
    Reads reader text f := by
  cases h with
  | @object members parts text h hm ht =>
    have hr := reads_record_effects fields ⟨none, []⟩ parts (members.map fun m => f.effect m.1)
      (forall₂_effects f members parts hm (h.effect f members)) (h.nodup_keys f members)
      (fun g hg hreq => absurd hreq (by simp [not_required g hg])) text ht
    rwa [foldl_effects f ⟨none, []⟩ members (fun hd => (h.documentation_missing hd).symm)
      fun hc => (h.calls_missing hc).symm] at hr
  | @array items text h ht =>
    obtain ⟨documentation, calls⟩ := f
    cases h with
    | nothing hd hc =>
      cases hd
      cases hc
      exact reads_record_array [] fields ⟨none, []⟩ [] .nil not_required text ht
    | @documentation d hd hc =>
      cases hc
      have hf : List.Forall₂ (fun g i => Reads g.reader i.1 i.2) (fields.take 1)
          [(d, setDocumentation documentation)] :=
        .cons (reads_documentation documentation d hd) .nil
      exact reads_record_array (fields.take 1) (fields.drop 1) ⟨none, []⟩ _ hf
        (fun g hg => not_required g (List.mem_of_mem_drop hg)) text ht
    | @both d c hd hc =>
      have hf : List.Forall₂ (fun g i => Reads g.reader i.1 i.2) fields
          [(d, setDocumentation documentation), (c, setCalls calls)] :=
        .cons (reads_documentation documentation d hd) (.cons (reads_calls calls c hc) .nil)
      exact reads_record_array fields [] ⟨none, []⟩ _ hf (by simp) text ht

/-- However a function is written, it is read: its fields in either order and in any spelling, left
out or `null` where there is nothing to say, with any other members in between, or as an array of
its fields. -/
theorem read_presents (f : FunctionInfo) (b text b' : List Char) (h : f.Presents text)
    (hb : Blank b) (hb' : Blank b') :
    Json.read reader (String.ofList (b ++ (text ++ b'))) = .ok f :=
  read_of_reads_between reader b text b' f (h.reads f text) hb hb'

/-- A member that is no field, in front; a field that is told to be missing; and one with an escape.
-/
def cluttered : List (String × List Char) :=
  [("x", "[1e999,\x7b\"\\ud800\":false\x7d]".toList), ("calls", nullText),
    ("documentation", "\"\\u00E9\"".toList)]

theorem read_presents_cluttered :
    Json.read reader
      ("\x7b\"x\": [1e999,\x7b\"\\ud800\":false\x7d]," ++
        "\"calls\":null,\"documentation\":\"\\u00E9\"\x7d ") = .ok ⟨some "é", []⟩ ∧
      Json.read reader "[null,[\"g\"]]" = .ok ⟨none, ["g"]⟩ := by
  have hnumber : NumberText ['1', 'e', '9', '9', '9'] :=
    @NumberText.parts [] ['1'] [] ['e', '9', '9', '9'] (Or.inl rfl) ⟨by simp, by simp⟩ (by simp)
      .missing (@Exponent.digits 'e' [] ['9', '9', '9'] (Or.inl rfl) (Or.inl rfl)
        ⟨by simp, by simp⟩)
  have hhalf : HexWord ['d', '8', '0', '0'] 0xD800 :=
    @HexWord.digits 'd' '8' '0' '0' 13 8 0 0 (Or.inl rfl) (Or.inl rfl) (Or.inl rfl) (Or.inl rfl)
  have hkey : Heading ['"', '\\', 'u', 'd', '8', '0', '0', '"', ':'] :=
    @Heading.key ['"', '\\', 'u', 'd', '8', '0', '0', '"'] [] []
      (@StringText.pieces [['\\', 'u', 'd', '8', '0', '0']]
        (List.forall_mem_singleton.mpr (.word hhalf))) blank_nil blank_nil
  have hinner := @ValueText.object [(_, ['f', 'a', 'l', 's', 'e'])] _
    (List.forall_mem_singleton.mpr hkey) (List.forall_mem_singleton.mpr (.word (by simp)))
    (.part (.first blank_nil) (.close blank_nil))
  have hother : ValueText "[1e999,\x7b\"\\ud800\":false\x7d]".toList := .array
    (List.forall_mem_cons.mpr ⟨.number hnumber, List.forall_mem_singleton.mpr hinner⟩)
    (.part (.first blank_nil) (.part (.comma blank_nil blank_nil) (.close blank_nil)))
  have hletter : HexWord ['0', '0', 'E', '9'] 'é'.toNat :=
    @HexWord.digits '0' '0' 'E' '9' 0 0 14 9 (Or.inl rfl) (Or.inl rfl) (Or.inr rfl) (Or.inl rfl)
  have hdocumentation : Spelled "é" "\"\\u00E9\"".toList :=
    ⟨[['\\', 'u', '0', '0', 'E', '9']], .cons (.word hletter) .nil, rfl⟩
  have htells : Tells ⟨some "é", []⟩ cluttered := by
    refine ⟨by decide, by decide, ?_, ?_, ?_, fun _ => rfl, ?_⟩
    · intro text ht
      obtain rfl : text = "\"\\u00E9\"".toList := by simpa [cluttered] using ht
      exact .given hdocumentation
    · intro text ht
      obtain rfl : text = nullText := by simpa [cluttered] using ht
      exact .missing
    · exact fun hm => absurd hm (by decide)
    · intro m hm hd hc
      obtain rfl : m = ("x", "[1e999,\x7b\"\\ud800\":false\x7d]".toList) := by
        simp only [cluttered, List.mem_cons, List.not_mem_nil, or_false] at hm
        rcases hm with rfl | rfl | rfl
        · rfl
        · exact absurd rfl hc
        · exact absurd rfl hd
      exact hother
  have hspace : Blank [' '] := by simp [Blank, isBlank]
  have hobject := read_presents ⟨some "é", []⟩ [] _ [' '] (.object htells
    (.cons ⟨_, [], [' '], spelled_quote "x", blank_nil, hspace, rfl⟩
      (.cons ⟨_, [], [], spelled_quote "calls", blank_nil, blank_nil, rfl⟩
        (.cons ⟨_, [], [], spelled_quote "documentation", blank_nil, blank_nil, rfl⟩ .nil)))
    (.part (.first blank_nil) (.part (.comma blank_nil blank_nil)
      (.part (.comma blank_nil blank_nil) (.close blank_nil))))) blank_nil hspace
  have harray := read_presents ⟨none, ["g"]⟩ [] _ [] (.array
    (.both .missing (.given (.cons (spelled_quote "g") .nil)
      (.part (.first blank_nil) (.close blank_nil))))
    (.part (.first blank_nil) (.part (.comma blank_nil blank_nil) (.close blank_nil)))) blank_nil
    blank_nil
  refine ⟨Eq.trans (congrArg (Json.read reader) ?_) hobject,
    Eq.trans (congrArg (Json.read reader) ?_) harray⟩
  · decide +kernel
  · decide +kernel

end CodeAtlas.FunctionInfo
