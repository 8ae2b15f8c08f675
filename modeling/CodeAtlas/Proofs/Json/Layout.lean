import CodeAtlas.Proofs.Json.Truncation

namespace CodeAtlas.Json

variable {σ α β : Type}

/-- A way to write documents that leaves nothing open but the blanks between the parts of arrays and
objects. These may depend on the depth. -/
structure Layout where
  chars : (depth : Nat) → Json → List Char
  member : (depth : Nat) → String × Json → List Char
  chars_nat : ∀ d n, chars d (.nat n) = decimalDigits n
  chars_single : ∀ d x, chars d (.single x) = singleText x
  chars_str : ∀ d s, chars d (.str s) = quote s
  chars_arr : ∀ d vs, ∃ text, chars d (.arr vs) = '[' :: text ∧
    Enclosed ']' true (vs.map (chars (d + 1))) text
  chars_obj : ∀ d ms, ∃ text, chars d (.obj ms) = '{' :: text ∧
    Enclosed '}' true (ms.map (member d)) text
  isMember : ∀ d m, Member m.1 (chars (d + 1) m.2) (member d m)

theorem Reads.map (value : Reader α) (text : List Char) (a : α) (h : Reads value text a)
    (f : α → β) : Reads (fun cs => value cs >>= fun r => .ok (f r.1, r.2)) text (f a) where
  starts := h.starts
  result b rest hb hs := by
    rw [h.result b rest hb hs]
    rfl

/-- What is read wherever it stands is read as a whole text, also between blanks. -/
theorem read_of_reads_between (value : Reader α) (b text b' : List Char) (a : α)
    (h : Reads value text a) (hb : Blank b) (hb' : Blank b') :
    read value (String.ofList (b ++ (text ++ b'))) = .ok a := by
  have hs : Stops b' := fun c hc => Or.inl (hb' c (List.mem_of_mem_head? hc))
  rw [read, String.toList_ofList, h.result b b' hb hs, ok_bind]
  simp only [skipBlank_blank b' hb']
  rfl

theorem read_of_reads (value : Reader α) (text b : List Char) (a : α) (h : Reads value text a)
    (hb : Blank b) : read value (String.ofList (text ++ b)) = .ok a :=
  read_of_reads_between value [] text b a h blank_nil hb

def compactMember (m : String × Json) : List Char :=
  quote m.1 ++ ':' :: compactChars m.2

theorem enclosed_compactItems (vs : List Json) :
    Enclosed ']' false (vs.map compactChars) (compactItems vs) := by
  induction vs with
  | nil => exact .close blank_nil
  | cons v vs ih =>
    rw [compactItems]
    exact .part (.comma blank_nil blank_nil) ih

theorem enclosed_compactMembers (ms : List (String × Json)) :
    Enclosed '}' false (ms.map compactMember) (compactMembers ms) := by
  induction ms with
  | nil => exact .close blank_nil
  | cons m ms ih =>
    have h : Enclosed '}' false ((m :: ms).map compactMember)
        ([] ++ ',' :: [] ++ (compactMember m ++ compactMembers ms)) :=
      .part (.comma blank_nil blank_nil) ih
    rw [compactMembers]
    simpa [compactMember] using h

theorem compactChars_arr (vs : List Json) :
    ∃ text, compactChars (.arr vs) = '[' :: text ∧
      Enclosed ']' true (vs.map compactChars) text := by
  cases vs with
  | nil => exact ⟨[']'], by rw [compactChars], .close blank_nil⟩
  | cons v vs =>
    exact ⟨compactChars v ++ compactItems vs, by rw [compactChars]; rfl,
      .part (.first blank_nil) (enclosed_compactItems vs)⟩

theorem compactChars_obj (ms : List (String × Json)) :
    ∃ text, compactChars (.obj ms) = '{' :: text ∧
      Enclosed '}' true (ms.map compactMember) text := by
  cases ms with
  | nil => exact ⟨['}'], by rw [compactChars], .close blank_nil⟩
  | cons m ms =>
    refine ⟨compactMember m ++ compactMembers ms, ?_,
      .part (.first blank_nil) (enclosed_compactMembers ms)⟩
    rw [compactChars]
    simp [compactMember]

def compactLayout : Layout where
  chars _ := compactChars
  member _ := compactMember
  chars_nat _ n := by rw [compactChars]
  chars_single _ x := by rw [compactChars]
  chars_str _ s := by rw [compactChars]
  chars_arr _ := compactChars_arr
  chars_obj _ := compactChars_obj
  isMember _ _ := ⟨[], [], blank_nil, blank_nil, rfl⟩

def prettyMember (d : Nat) (m : String × Json) : List Char :=
  quote m.1 ++ ':' :: ' ' :: prettyChars (d + 1) m.2

theorem blank_newLine (d : Nat) : Blank (newLine d) := by
  intro c hc
  obtain rfl | hc := List.mem_cons.mp hc
  · rfl
  · rw [List.eq_of_mem_replicate hc]
    rfl

theorem enclosed_prettyItems (d : Nat) (vs : List Json) :
    Enclosed ']' false (vs.map (prettyChars (d + 1))) (prettyItems d vs) := by
  induction vs with
  | nil =>
    rw [prettyItems]
    exact .close (blank_newLine d)
  | cons v vs ih =>
    have h : Enclosed ']' false ((v :: vs).map (prettyChars (d + 1)))
        ([] ++ ',' :: newLine (d + 1) ++ (prettyChars (d + 1) v ++ prettyItems d vs)) :=
      .part (.comma blank_nil (blank_newLine _)) ih
    rw [prettyItems]
    simpa using h

theorem enclosed_prettyMembers (d : Nat) (ms : List (String × Json)) :
    Enclosed '}' false (ms.map (prettyMember d)) (prettyMembers d ms) := by
  induction ms with
  | nil =>
    rw [prettyMembers]
    exact .close (blank_newLine d)
  | cons m ms ih =>
    have h : Enclosed '}' false ((m :: ms).map (prettyMember d))
        ([] ++ ',' :: newLine (d + 1) ++ (prettyMember d m ++ prettyMembers d ms)) :=
      .part (.comma blank_nil (blank_newLine _)) ih
    rw [prettyMembers]
    simpa [prettyMember] using h

theorem prettyChars_arr (d : Nat) (vs : List Json) :
    ∃ text, prettyChars d (.arr vs) = '[' :: text ∧
      Enclosed ']' true (vs.map (prettyChars (d + 1))) text := by
  cases vs with
  | nil => exact ⟨[']'], by rw [prettyChars], .close blank_nil⟩
  | cons v vs =>
    refine ⟨newLine (d + 1) ++ (prettyChars (d + 1) v ++ prettyItems d vs), ?_,
      .part (.first (blank_newLine _)) (enclosed_prettyItems d vs)⟩
    rw [prettyChars]
    simp

theorem prettyChars_obj (d : Nat) (ms : List (String × Json)) :
    ∃ text, prettyChars d (.obj ms) = '{' :: text ∧
      Enclosed '}' true (ms.map (prettyMember d)) text := by
  cases ms with
  | nil => exact ⟨['}'], by rw [prettyChars], .close blank_nil⟩
  | cons m ms =>
    refine ⟨newLine (d + 1) ++ (prettyMember d m ++ prettyMembers d ms), ?_,
      .part (.first (blank_newLine _)) (enclosed_prettyMembers d ms)⟩
    rw [prettyChars]
    simp [prettyMember]

def prettyLayout : Layout where
  chars := prettyChars
  member := prettyMember
  chars_nat _ n := by rw [prettyChars]
  chars_single _ x := by rw [prettyChars]
  chars_str _ s := by rw [prettyChars]
  chars_arr := prettyChars_arr
  chars_obj := prettyChars_obj
  isMember _ _ := ⟨[], [' '], blank_nil, by simp [Blank, isBlank], rfl⟩

theorem reads_choice_bare (cases : List (String × Case α)) (name : String) (a : α)
    (h : cases.lookup name = some (.bare a)) : Reads (choice cases) (quote name) a where
  starts := ⟨'"', _, rfl, rfl, by decide⟩
  result b rest hb _ := by
    rw [choice, quote_append, skipBlank_to b '"' _ hb rfl]
    simp only [quoted_escaped, ok_bind, h]

theorem closeChoice_blank (b rest : List Char) (hb : Blank b) :
    closeChoice (b ++ '}' :: rest) = .ok ((), rest) := by
  rw [closeChoice, skipBlank_to b '}' _ hb rfl]
  rfl

theorem choiceName_blank (b : List Char) (hb : Blank b) (name : String) (rest : List Char) :
    choiceName (b ++ (quote name ++ rest)) = .ok (name, rest) := by
  rw [choiceName, quote_append, skipBlank_to b '"' _ hb rfl]
  exact quoted_escaped name rest

theorem reads_choice_holding (cases : List (String × Case α)) (name : String) (value : Reader α)
    (a : α) (h : cases.lookup name = some (.holding value)) (body part text : List Char)
    (hm : Member name body part) (hv : Reads value body a) (ht : Enclosed '}' true [part] text) :
    Reads (choice cases) ('{' :: text) a where
  starts := ⟨'{', text, rfl, rfl, by decide⟩
  result b rest hb _ := by
    obtain ⟨b₁, b₂, hb₁, hb₂, rfl⟩ := hm
    cases ht with
    | @part _ lead _ close _ hl hc =>
      cases hl with
      | first hlead =>
        cases hc with
        | @close _ b₃ hb₃ =>
          have hvalue := hv.result b₂ (b₃ ++ '}' :: rest) hb₂
            (stops_blank_append b₃ '}' rest hb₃ (Or.inr (Or.inr rfl)))
          have htext :
              lead ++ (quote name ++ (b₁ ++ ':' :: (b₂ ++ body)) ++ (b₃ ++ ['}'])) ++ rest =
                lead ++ (quote name ++ (b₁ ++ ':' :: (b₂ ++ (body ++ (b₃ ++ '}' :: rest))))) := by
            simp only [List.append_assoc, List.cons_append, List.nil_append]
          rw [choice, List.cons_append, skipBlank_to b '{' _ hb rfl, htext]
          simp only [choiceName_blank lead hlead, ok_bind, h, colon_blank b₁ _ hb₁, hvalue,
            closeChoice_blank b₃ rest hb₃]

namespace Layout

variable (l : Layout) (d : Nat)

theorem readsWhole_str (s : String) : ReadsWhole string (l.chars d (.str s)) s := by
  rw [l.chars_str]
  exact readsWhole_string s

theorem reads_str (s : String) : Reads string (l.chars d (.str s)) s :=
  (l.readsWhole_str d s).toReads

theorem reads_list (item : Reader α) (toJson : α → Json) (values : List α)
    (h : ∀ a ∈ values, Reads item (l.chars (d + 1) (toJson a)) a) :
    Reads (list item) (l.chars d (.arr (values.map toJson))) values := by
  obtain ⟨text, he, ht⟩ := l.chars_arr d (values.map toJson)
  rw [he]
  refine Json.reads_list item _ values ?_ text ht
  rw [List.map_map, List.forall₂_map_left_iff, List.forall₂_same]
  exact h

theorem readsWhole_list (item : Reader α) (toJson : α → Json) (values : List α)
    (h : ∀ a ∈ values, ReadsWhole item (l.chars (d + 1) (toJson a)) a) :
    ReadsWhole (list item) (l.chars d (.arr (values.map toJson))) values := by
  obtain ⟨text, he, ht⟩ := l.chars_arr d (values.map toJson)
  rw [he]
  refine Json.readsWhole_list item _ values ?_ text ht
  rw [List.map_map, List.forall₂_map_left_iff, List.forall₂_same]
  exact h

theorem readsWhole_dictionary (value : Reader α) (members : List (String × Json × α))
    (h : ∀ m ∈ members, ReadsWhole value (l.chars (d + 1) m.2.1) m.2.2) :
    ReadsWhole (dictionary value) (l.chars d (.obj (members.map fun m => (m.1, m.2.1))))
      (.ofList (members.map fun m => (m.1, m.2.2))) := by
  obtain ⟨text, he, ht⟩ := l.chars_obj d (members.map fun m => (m.1, m.2.1))
  rw [he]
  refine Json.readsWhole_dictionary value _ _ ?_ text ht
  rw [List.map_map, List.forall₂_map_left_iff, List.forall₂_map_right_iff, List.forall₂_same]
  intro m hm
  exact ⟨_, l.isMember d (m.1, m.2.1), h m hm⟩

theorem sets (fields : List (Field σ)) (name : String) (required : Bool) (value : Reader β)
    (set : β → σ → σ)
    (hf : fields.find? (·.name == name) = some ⟨name, required, Field.put value set⟩) (j : Json)
    (b : β) (hv : Reads value (l.chars (d + 1) j) b) :
    Sets fields (l.member d (name, j)) (name, set b) :=
  ⟨_, _, hf, l.isMember d (name, j), hv.put value _ b set⟩

theorem reads_record (fields : List (Field σ)) (blank : σ) (members : List (String × Json))
    (sets : List (String × (σ → σ)))
    (h : List.Forall₂ (fun m e => Sets fields (l.member d m) e) members sets)
    (hd : (sets.map Prod.fst).Nodup)
    (hreq : ∀ f ∈ fields, f.required = true → f.name ∈ sets.map Prod.fst) :
    Reads (record fields blank) (l.chars d (.obj members))
      (sets.foldl (fun s e => e.2 s) blank) := by
  obtain ⟨text, he, ht⟩ := l.chars_obj d members
  rw [he]
  exact Json.reads_record fields blank _ sets (List.forall₂_map_left_iff.mpr h) hd hreq text ht

theorem readsWhole_record (fields : List (Field σ)) (blank : σ) (members : List (String × Json))
    (sets : List (String × (σ → σ)))
    (h : List.Forall₂ (fun m e => SetsWhole fields (l.member d m) e) members sets)
    (hd : (sets.map Prod.fst).Nodup)
    (hreq : ∀ f ∈ fields, f.required = true → f.name ∈ sets.map Prod.fst) :
    ReadsWhole (record fields blank) (l.chars d (.obj members))
      (sets.foldl (fun s e => e.2 s) blank) := by
  obtain ⟨text, he, ht⟩ := l.chars_obj d members
  rw [he]
  exact Json.readsWhole_record fields blank _ sets (List.forall₂_map_left_iff.mpr h) hd hreq text ht

theorem reads_pair (key₁ key₂ : String) (hk : key₁ ≠ key₂) (value₁ : Reader α) (value₂ : Reader β)
    (blank : α × β) (j₁ j₂ : Json) (a : α) (b : β) (ha : Reads value₁ (l.chars (d + 1) j₁) a)
    (hb : Reads value₂ (l.chars (d + 1) j₂) b) :
    Reads (record [.needed key₁ value₁ fun a p => (a, p.2),
        .needed key₂ value₂ fun b p => (p.1, b)] blank)
      (l.chars d (.obj [(key₁, j₁), (key₂, j₂)])) (a, b) := by
  have hfirst := l.sets d [.needed key₁ value₁ fun a (p : α × β) => (a, p.2),
    .needed key₂ value₂ fun b p => (p.1, b)] key₁ true value₁ _
    (List.find?_cons_of_pos (beq_self_eq_true key₁)) j₁ a ha
  have hsecond := l.sets d [.needed key₁ value₁ fun a (p : α × β) => (a, p.2),
    .needed key₂ value₂ fun b p => (p.1, b)] key₂ true value₂ (fun b p => (p.1, b))
    (by simp [Field.needed, hk]) j₂ b hb
  exact l.reads_record d _ blank _ _ (.cons hfirst (.cons hsecond .nil)) (by simp [hk])
    (by simp [Field.needed])

theorem reads_bare (cases : List (String × Case α)) (name : String) (a : α)
    (h : cases.lookup name = some (.bare a)) : Reads (choice cases) (l.chars d (.str name)) a := by
  rw [l.chars_str]
  exact reads_choice_bare cases name a h

theorem reads_choice (cases : List (String × Case α)) (name : String) (value : Reader α) (a : α)
    (h : cases.lookup name = some (.holding value)) (j : Json)
    (hv : Reads value (l.chars (d + 1) j) a) :
    Reads (choice cases) (l.chars d (.obj [(name, j)])) a := by
  obtain ⟨text, he, ht⟩ := l.chars_obj d [(name, j)]
  rw [he]
  exact reads_choice_holding cases name value a h _ _ text (l.isMember d (name, j)) hv ht

end Layout

end CodeAtlas.Json
