import CodeAtlas.Proofs.Documentation.Writing

namespace CodeAtlas.Documentation

/-- A text with something in it and no white space around it. -/
structure Tidy (text : String) : Prop where
  ne_empty : text ≠ ""
  trimmed : Text.trim text.toList = text.toList

theorem tidy_ofList (cs : List Char) (hne : cs ≠ []) (ht : Text.trim cs = cs) :
    Tidy (String.ofList cs) where
  ne_empty he := hne (String.ofList_eq_empty_iff.mp he)
  trimmed := by rw [String.toList_ofList, ht]

theorem tidy_placeholder (s : Section) : Tidy s.placeholder := by
  cases s <;> exact ⟨by decide, by decide⟩

theorem tidy_of_body? (s : Section) (text body : String) (h : body? s text = some body) :
    Tidy body := by
  obtain ⟨hne, rest, _, htrim⟩ := (body?_eq_some_iff s text body).mp h
  refine ⟨hne, ?_⟩
  rw [← htrim, Text.trim_trim]

theorem tidy_bodyOrPlaceholder (s : Section) (text : String) : Tidy (bodyOrPlaceholder s text) := by
  rw [bodyOrPlaceholder]
  cases h : body? s text with
  | none => exact tidy_placeholder s
  | some body => exact tidy_of_body? s text body h

structure Listed (lines : List String) : Prop where
  ne_nil : lines ≠ []
  tidy : ∀ line ∈ lines, Tidy line
  one_line : ∀ line ∈ lines, '\n' ∉ line.toList

theorem listed_pieces (body : String) (h : Tidy body) :
    Listed ((Text.pieces body.toList).map String.ofList) where
  ne_nil := by
    intro hnil
    have hblank := (Text.pieces_eq_nil_iff body.toList).mp (List.map_eq_nil_iff.mp hnil)
    have htrim := (Text.trim_eq_nil_iff body.toList).mpr hblank
    rw [h.trimmed] at htrim
    exact h.ne_empty (String.toList_eq_nil_iff.mp htrim)
  tidy line hline := by
    obtain ⟨piece, hp, rfl⟩ := List.mem_map.mp hline
    obtain ⟨hne, htrim, _⟩ := Text.mem_pieces _ piece hp
    exact tidy_ofList piece hne htrim
  one_line line hline := by
    obtain ⟨piece, hp, rfl⟩ := List.mem_map.mp hline
    rw [String.toList_ofList]
    exact (Text.mem_pieces _ piece hp).2.2

theorem listed_of_parameters (text : String) (lines : List String)
    (h : (ofText text).parameters = some lines) : Listed lines := by
  cases hb : body? .parameters text with
  | none =>
    have hnone := (showsPlaceholder_ofText .parameters text hb).1
    rw [hnone] at h
    cases h
  | some body =>
    have hshown : (ofText text).parameters = _ := showsBody_ofText .parameters text body hb
    rw [hshown] at h
    obtain rfl := Option.some.inj h
    exact listed_pieces body (tidy_of_body? _ _ _ hb)

/-- The body of the pseudocode section has a fenced block, and the first one holds nothing but white
space. -/
def BlankBlock (text : String) : Prop :=
  ∃ body inside, body? .pseudocode text = some body ∧ FirstBlock body.toList inside ∧
    Text.Blank inside

/-- Pseudocode is what is between the fences of the first block, or else a tidy text. -/
theorem pseudocode_cases (text : String) :
    (∃ body inside, body? .pseudocode text = some body ∧ FirstBlock body.toList inside ∧
        (ofText text).pseudocode = String.ofList (Text.trim inside)) ∨
      ¬ BlankBlock text ∧ Tidy (ofText text).pseudocode := by
  cases hb : body? .pseudocode text with
  | none =>
    right
    have hshown : (ofText text).pseudocode = _ := showsPlaceholder_ofText .pseudocode text hb
    rw [hshown]
    refine ⟨?_, tidy_placeholder .pseudocode⟩
    rintro ⟨body, _, hbody, _⟩
    rw [hb] at hbody
    cases hbody
  | some body =>
    obtain ⟨hfenced, hplain⟩ := showsBody_ofText .pseudocode text body hb
    by_cases hf : ∃ inside, FirstBlock body.toList inside
    · obtain ⟨inside, hi⟩ := hf
      exact Or.inl ⟨body, inside, rfl, hi, hfenced inside hi⟩
    · right
      rw [not_exists] at hf
      rw [hplain hf]
      refine ⟨?_, tidy_of_body? _ _ _ hb⟩
      rintro ⟨body', inside, hbody, hi, _⟩
      rw [hb] at hbody
      obtain rfl := Option.some.inj hbody
      exact hf inside hi

theorem trim_pseudocode (text : String) :
    Text.trim (ofText text).pseudocode.toList = (ofText text).pseudocode.toList := by
  obtain ⟨_, inside, _, _, he⟩ | ⟨_, ht⟩ := pseudocode_cases text
  · rw [he, String.toList_ofList, Text.trim_trim]
  · exact ht.trimmed

theorem pseudocode_eq_empty_iff (text : String) :
    (ofText text).pseudocode = "" ↔ BlankBlock text := by
  obtain ⟨body, inside, hb, hi, he⟩ | ⟨hno, ht⟩ := pseudocode_cases text
  · rw [he, String.ofList_eq_empty_iff, Text.trim_eq_nil_iff]
    constructor
    · intro hblank
      exact ⟨body, inside, hb, hi, hblank⟩
    · rintro ⟨body', inside', hb', hi', hblank⟩
      rw [hb] at hb'
      obtain rfl := Option.some.inj hb'
      rw [← fenced?_eq_some_iff] at hi hi'
      obtain rfl := Option.some.inj (hi.symm.trans hi')
      exact hblank
  · exact ⟨fun h => absurd h ht.ne_empty, fun h => absurd h hno⟩

/-- Whatever the text, its description and its return value are tidy, its parameters are tidy lines,
at least one, unless there are none, and a section that is missing or blank has its placeholder. The
pseudocode has no white space around it, and it is empty in one case only: its section has a fenced
block and the first one is blank. -/
theorem ofText_fields (text : String) :
    Tidy (ofText text).description ∧ Tidy (ofText text).returnValue ∧
      (∀ lines, (ofText text).parameters = some lines → Listed lines) ∧
      (∀ s, body? s text = none → ShowsPlaceholder (ofText text) s) ∧
      Text.trim (ofText text).pseudocode.toList = (ofText text).pseudocode.toList ∧
      ((ofText text).pseudocode = "" ↔ BlankBlock text) :=
  ⟨tidy_bodyOrPlaceholder .description text, tidy_bodyOrPlaceholder .returnValue text,
    listed_of_parameters text, fun s => showsPlaceholder_ofText s text, trim_pseudocode text,
    pseudocode_eq_empty_iff text⟩

theorem ofText_fields_ragged :
    (ofText "# Parameters\n a\r\n　\r\n\tb\n# Pseudocode\n```\n\n``").parameters =
        some ["a", "b"] ∧
      Listed ["a", "b"] ∧
      body? .returnValue "# Parameters\n a\r\n　\r\n\tb\n# Pseudocode\n```\n\n``" = none ∧
      (ofText "# Parameters\n a\r\n　\r\n\tb\n# Pseudocode\n```\n\n``").returnValue =
        "No return value specified." ∧
      ¬ BlankBlock "# Parameters\n a\r\n　\r\n\tb\n# Pseudocode\n```\n\n``" := by
  obtain ⟨_, _, hlisted, hshown, _, hblank⟩ :=
    ofText_fields "# Parameters\n a\r\n　\r\n\tb\n# Pseudocode\n```\n\n``"
  have hp : (ofText "# Parameters\n a\r\n　\r\n\tb\n# Pseudocode\n```\n\n``").parameters =
      some ["a", "b"] := by decide
  have hr : body? .returnValue "# Parameters\n a\r\n　\r\n\tb\n# Pseudocode\n```\n\n``" =
      none := by decide
  refine ⟨hp, hlisted _ hp, hr, hshown .returnValue hr, ?_⟩
  rw [← hblank]
  decide

/-- Between two fences with nothing between them there is no pseudocode, and no placeholder stands
in for it, so not every field is tidy. -/
theorem blank_block_leaves_no_pseudocode :
    body? .pseudocode "## Pseudocode\n``````" = some "``````" ∧
      (ofText "## Pseudocode\n``````").pseudocode = "" ∧
      ¬ ∀ text, Tidy (ofText text).pseudocode := by
  have he : (ofText "## Pseudocode\n``````").pseudocode = "" := by decide
  exact ⟨by decide, he, fun h => (h "## Pseudocode\n``````").ne_empty he⟩

end CodeAtlas.Documentation
