import CodeAtlas.Proofs.Documentation.Bodies

namespace CodeAtlas.Documentation

open Text (Pattern Blank isSpace trimLeft)

/-- A text in which no header can begin. -/
def Plain (cs : List Char) : Prop :=
  ∀ c ∈ cs, c ≠ '#' ∧ c ≠ '*'

instance (cs : List Char) : Decidable (Plain cs) :=
  List.decidableBAll (fun c => c ≠ '#' ∧ c ≠ '*') cs

structure Chapter where
  subject : Section
  depth : Nat
  body : String
  one_le_depth : 1 ≤ depth
  depth_le : depth ≤ 4
  body_ne : body ≠ ""
  trimmed : Text.trim body.toList = body.toList
  plain : Plain body.toList
  no_colon : body.toList.head? ≠ some ':'

def Chapter.text (ch : Chapter) : List Char :=
  List.replicate ch.depth '#' ++ ' ' :: ch.subject.label.toList ++ '\n' :: ch.body.toList ++ ['\n']

def written (preamble : String) (chapters : List Chapter) : String :=
  String.ofList (preamble.toList ++ chapters.flatMap Chapter.text)

theorem afterHeading?_of_plain (s : Section) (c : Char) (cs : List Char)
    (hc : c ≠ '#' ∧ c ≠ '*') : afterHeading? s (c :: cs) = none := by
  rw [afterHeading?, afterMark?_of_plain c cs hc.1 hc.2, Option.bind_none]

theorem findHeader?_plain_append (s : Section) (u v : List Char) (hu : Plain u) :
    findHeader? s (u ++ v) = findHeader? s v := by
  induction u with
  | nil => rfl
  | cons c u ih =>
    rw [List.cons_append, findHeader?, afterHeader?,
      afterHeading?_of_plain s c _ (hu c List.mem_cons_self), Option.bind_none]
    exact ih fun x hx => hu x (List.mem_cons_of_mem c hx)

theorem afterLabel?_label (s t : Section) (tail : List Char) :
    afterLabel? s.label.toList (t.label.toList ++ tail) = if s = t then some tail else none := by
  cases s <;> cases t <;> rfl

theorem afterHeading?_hashes (s t : Section) (n : Nat) (hn : n ≤ 3) (tail : List Char) :
    afterHeading? s (List.replicate (n + 1) '#' ++ ' ' :: t.label.toList ++ tail) =
      if s = t then some tail else none := by
  have hhash : ∀ c ∈ List.replicate n '#', (c == '#') = true := by
    intro c hc
    rw [List.eq_of_mem_replicate hc]
    rfl
  have htrim : trimLeft (' ' :: (t.label.toList ++ tail)) = t.label.toList ++ tail := by
    cases t <;> rfl
  rw [afterHeading?, List.replicate_succ, List.cons_append, List.cons_append, List.append_assoc,
    List.cons_append, afterMark?_hash, List.takeWhile_append_of_pos hhash,
    List.dropWhile_append_of_pos hhash, List.takeWhile_cons_of_neg (by decide),
    List.dropWhile_cons_of_neg (by decide), List.append_nil, List.length_replicate, if_pos hn,
    Option.bind_some, htrim, afterLabel?_label]

theorem plain_label (s : Section) : Plain s.label.toList := by
  cases s <;> decide

theorem findHeader?_hashes_append (s t : Section) (hst : s ≠ t) (n : Nat) (hn : n ≤ 4)
    (tail : List Char) :
    findHeader? s (List.replicate n '#' ++ ' ' :: t.label.toList ++ tail) =
      findHeader? s tail := by
  induction n with
  | zero =>
    apply findHeader?_plain_append
    intro c hc
    obtain rfl | hc := List.mem_cons.mp hc
    · decide
    · exact plain_label t c hc
  | succ n ih =>
    have hheading := afterHeading?_hashes s t n (by omega) tail
    rw [if_neg hst] at hheading
    rw [List.replicate_succ, List.cons_append, List.cons_append] at hheading ⊢
    rw [findHeader?, afterHeader?, hheading, Option.bind_none]
    exact ih (by omega)

namespace Chapter

theorem text_append (ch : Chapter) (v : List Char) :
    ch.text ++ v = List.replicate ch.depth '#' ++ ' ' :: ch.subject.label.toList ++
      ('\n' :: (ch.body.toList ++ '\n' :: v)) := by
  simp [text]

theorem text_eq_cons (ch : Chapter) : ∃ cs, ch.text = '#' :: cs := by
  obtain ⟨n, hn⟩ := Nat.exists_eq_add_of_le' ch.one_le_depth
  rw [text, hn, List.replicate_succ]
  exact ⟨_, rfl⟩

theorem afterHeading?_text (ch : Chapter) (v : List Char) :
    afterHeading? ch.subject (ch.text ++ v) =
      some ('\n' :: (ch.body.toList ++ '\n' :: v)) := by
  obtain ⟨n, hn⟩ := Nat.exists_eq_add_of_le' ch.one_le_depth
  have hdepth := ch.depth_le
  rw [text_append, hn, afterHeading?_hashes _ _ n (by omega), if_pos rfl]

theorem body_eq_cons (ch : Chapter) :
    ∃ c cs, ch.body.toList = c :: cs ∧ isSpace c = false ∧ c ≠ ':' := by
  cases hb : ch.body.toList with
  | nil => exact absurd (String.toList_eq_nil_iff.mp hb) ch.body_ne
  | cons c cs =>
    refine ⟨c, cs, rfl, ?_, ?_⟩
    · apply Text.head?_trim ch.body.toList
      rw [ch.trimmed, hb]
      rfl
    · rintro rfl
      exact ch.no_colon (by rw [hb]; rfl)

theorem findHeader?_other (ch : Chapter) (s : Section) (hs : s ≠ ch.subject) (v : List Char) :
    findHeader? s (ch.text ++ v) = findHeader? s v := by
  rw [text_append, findHeader?_hashes_append s ch.subject hs ch.depth ch.depth_le]
  have hplain : Plain ('\n' :: (ch.body.toList ++ ['\n'])) := by
    intro c hc
    simp only [List.mem_cons, List.mem_append, List.not_mem_nil, or_false] at hc
    obtain rfl | hc | rfl := hc
    · decide
    · exact ch.plain c hc
    · decide
  simpa using findHeader?_plain_append s _ v hplain

/-- The line of the label holds nothing else, and the body that follows begins with neither white
space nor a colon. -/
theorem findHeader?_own (ch : Chapter) (v : List Char) :
    findHeader? ch.subject (ch.text ++ v) = some (ch.body.toList ++ '\n' :: v) := by
  obtain ⟨c, cs, hb, hspace, hcolon⟩ := ch.body_eq_cons
  obtain ⟨t, ht⟩ := ch.text_eq_cons
  have hheading := ch.afterHeading?_text v
  have hends : labelEnds ('\n' :: (ch.body.toList ++ '\n' :: v)) =
      ['\n' :: (ch.body.toList ++ '\n' :: v)] := by
    have htrim : trimLeft ('\n' :: (ch.body.toList ++ '\n' :: v)) = c :: (cs ++ '\n' :: v) := by
      rw [hb]
      exact Text.trimLeft_of_head? (c :: (cs ++ '\n' :: v)) (by simp [hspace])
    obtain ⟨rest, he, _⟩ | ⟨_, ⟨rest, he, _⟩ | ⟨_, he⟩⟩ :=
      labelEnds_cases ('\n' :: (ch.body.toList ++ '\n' :: v))
    · exact absurd (List.cons.inj he).1 (by decide)
    · exact absurd (List.cons.inj (htrim.symm.trans he)).1 hcolon
    · exact he
  have hline : afterLine? ('\n' :: (ch.body.toList ++ '\n' :: v)) =
      some (ch.body.toList ++ '\n' :: v) := by
    apply afterLine?_append [] ['\n'] _ (by simp)
    refine ⟨by simp, by simp, ?_⟩
    rw [hb]
    rintro he
    obtain rfl := Option.some.inj he
    exact absurd hspace (by decide)
  rw [ht, List.cons_append] at hheading ⊢
  rw [findHeader?, afterHeader?, hheading, Option.bind_some, hends, List.findSome?_cons, hline]

end Chapter

theorem findHeader?_others (s : Section) (chapters : List Chapter)
    (hs : s ∉ chapters.map Chapter.subject) (v : List Char) :
    findHeader? s (chapters.flatMap Chapter.text ++ v) = findHeader? s v := by
  induction chapters with
  | nil => rfl
  | cons ch chapters ih =>
    rw [List.map_cons, List.mem_cons, not_or] at hs
    rw [List.flatMap_cons, List.append_assoc, ch.findHeader?_other s hs.1]
    exact ih hs.2

theorem atBoundary_of_plain (c : Char) (cs w : List Char) (hplain : Plain (c :: cs))
    (hlast : ∀ x, (c :: cs).getLast? = some x → isSpace x = false) :
    atBoundary (c :: (cs ++ w)) = false := by
  by_cases hc : c = '\n'
  · subst hc
    cases ht : trimLeft cs with
    | nil =>
      have hblank : Blank ('\n' :: cs) := by
        intro x hx
        obtain rfl | hx := List.mem_cons.mp hx
        · rfl
        · exact List.dropWhile_eq_nil_iff.mp ht x hx
      have hx := List.getLast?_eq_some_getLast (List.cons_ne_nil '\n' cs)
      have hno := hlast _ hx
      rw [hblank _ (List.mem_of_getLast? hx)] at hno
      cases hno
    | cons d ds =>
      have hd : d ∈ cs := (List.dropWhile_sublist isSpace).mem (by rw [← trimLeft, ht]; simp)
      have htrim : trimLeft (cs ++ w) = d :: (ds ++ w) := by
        rw [trimLeft, List.dropWhile_append, ← trimLeft, ht]
        rfl
      simp only [atBoundary, htrim,
        afterHeading?_of_plain _ d (ds ++ w) (hplain d (List.mem_cons_of_mem _ hd))]
      rfl
  · exact atBoundary_of_ne c _ hc

theorem beforeBoundary_plain_append (u w : List Char) (hplain : Plain u)
    (hlast : ∀ x, u.getLast? = some x → isSpace x = false) :
    beforeBoundary (u ++ w) = u ++ beforeBoundary w := by
  induction u with
  | nil => rfl
  | cons c u ih =>
    have hrest : beforeBoundary (u ++ w) = u ++ beforeBoundary w := by
      apply ih fun x hx => hplain x (List.mem_cons_of_mem c hx)
      intro x hx
      apply hlast
      simp [List.getLast?_cons, hx]
    rw [List.cons_append, beforeBoundary, atBoundary_of_plain c u w hplain hlast, hrest]
    rfl

theorem Chapter.atBoundary_text (ch : Chapter) (v : List Char) :
    atBoundary ('\n' :: (ch.text ++ v)) = true := by
  have htrim : trimLeft (ch.text ++ v) = ch.text ++ v := by
    obtain ⟨t, ht⟩ := ch.text_eq_cons
    rw [ht]
    rfl
  simp only [atBoundary, htrim, List.any_eq_true]
  exact ⟨ch.subject, by cases ch.subject <;> decide, by rw [ch.afterHeading?_text]; rfl⟩

theorem trim_beforeBoundary (ch : Chapter) (chapters : List Chapter) :
    Text.trim (beforeBoundary (ch.body.toList ++ '\n' :: chapters.flatMap Chapter.text)) =
      ch.body.toList := by
  have hlast : ∀ x, ch.body.toList.getLast? = some x → isSpace x = false := by
    rw [← ch.trimmed]
    exact Text.getLast?_trim ch.body.toList
  rw [beforeBoundary_plain_append _ _ ch.plain hlast]
  cases chapters with
  | nil =>
    have hb : beforeBoundary ('\n' :: List.flatMap Chapter.text []) = ['\n'] := by decide
    rw [hb, Text.trim_concat _ '\n' rfl, ch.trimmed]
  | cons next chapters =>
    rw [beforeBoundary, List.flatMap_cons, next.atBoundary_text, if_pos rfl, List.append_nil,
      ch.trimmed]

theorem body?_written_of_mem (preamble : String) (chapters : List Chapter)
    (hp : Plain preamble.toList) (hd : (chapters.map Chapter.subject).Nodup) (ch : Chapter)
    (hch : ch ∈ chapters) : body? ch.subject (written preamble chapters) = some ch.body := by
  obtain ⟨l, l', rfl⟩ := List.append_of_mem hch
  have hl : ch.subject ∉ l.map Chapter.subject := by
    intro hm
    rw [List.map_append, List.map_cons, List.nodup_append] at hd
    exact hd.2.2 _ hm _ List.mem_cons_self rfl
  have hfind : findHeader? ch.subject (written preamble (l ++ ch :: l')).toList =
      some (ch.body.toList ++ '\n' :: l'.flatMap Chapter.text) := by
    rw [written, String.toList_ofList, findHeader?_plain_append _ _ _ hp, List.flatMap_append,
      findHeader?_others _ l hl, List.flatMap_cons, ch.findHeader?_own]
  exact (body?_eq_some_iff _ _ _).mpr ⟨ch.body_ne, _, hfind, trim_beforeBoundary ch l'⟩

theorem body?_written_of_notMem (preamble : String) (chapters : List Chapter)
    (hp : Plain preamble.toList) (s : Section) (hs : s ∉ chapters.map Chapter.subject) :
    body? s (written preamble chapters) = none := by
  have hfind := findHeader?_others s chapters hs []
  rw [List.append_nil] at hfind
  rw [body?_eq_none_iff]
  left
  rw [written, String.toList_ofList, findHeader?_plain_append _ _ _ hp, hfind]
  rfl

/-- What is shown of a section that has a body: the body itself, of the parameters its lines, and of
pseudocode the inside of its first fenced block, if it has one. -/
def ShowsBody (d : Documentation) (body : String) : Section → Prop
  | .description => d.description = body
  | .parameters => d.parameters = some ((Text.pieces body.toList).map String.ofList)
  | .returnValue => d.returnValue = body
  | .pseudocode =>
    (∀ inside, FirstBlock body.toList inside → d.pseudocode = String.ofList (Text.trim inside)) ∧
      ((∀ inside, ¬ FirstBlock body.toList inside) → d.pseudocode = body)

def ShowsPlaceholder (d : Documentation) : Section → Prop
  | .description => d.description = Section.description.placeholder
  | .parameters => d.parameters = none ∧ d.parameterRows = [Section.parameters.placeholder]
  | .returnValue => d.returnValue = Section.returnValue.placeholder
  | .pseudocode => d.pseudocode = Section.pseudocode.placeholder

theorem showsBody_ofText (s : Section) (text body : String) (h : body? s text = some body) :
    ShowsBody (ofText text) body s := by
  cases s with
  | description => simp [ShowsBody, ofText, bodyOrPlaceholder, h]
  | parameters =>
    simp [ShowsBody, ofText, h, parameterLines, ← Text.filter_map_trim_lines]
  | returnValue => simp [ShowsBody, ofText, bodyOrPlaceholder, h]
  | pseudocode =>
    simp only [ShowsBody, ofText, bodyOrPlaceholder, h, Option.getD_some, ← fenced?_eq_some_iff,
      unfenced]
    constructor
    · intro inside hi
      rw [hi]
    · intro hn
      cases hf : fenced? body.toList with
      | none => rfl
      | some inside => exact absurd hf (hn inside)

theorem showsPlaceholder_ofText (s : Section) (text : String) (h : body? s text = none) :
    ShowsPlaceholder (ofText text) s := by
  cases s with
  | description => simp [ShowsPlaceholder, ofText, bodyOrPlaceholder, h]
  | parameters => simp [ShowsPlaceholder, ofText, parameterRows, h]
  | returnValue => simp [ShowsPlaceholder, ofText, bodyOrPlaceholder, h]
  | pseudocode =>
    have hu : unfenced Section.pseudocode.placeholder = Section.pseudocode.placeholder := by decide
    simp [ShowsPlaceholder, ofText, bodyOrPlaceholder, h, hu]

/-- A text of distinct sections under headings is read back section by section, whatever their
order, and for a section that it does not have there is the placeholder. -/
theorem ofText_written (preamble : String) (chapters : List Chapter)
    (hp : Plain preamble.toList) (hd : (chapters.map Chapter.subject).Nodup) :
    (∀ ch ∈ chapters, body? ch.subject (written preamble chapters) = some ch.body ∧
        ShowsBody (ofText (written preamble chapters)) ch.body ch.subject) ∧
      ∀ s, s ∉ chapters.map Chapter.subject → body? s (written preamble chapters) = none ∧
        ShowsPlaceholder (ofText (written preamble chapters)) s := by
  constructor
  · intro ch hch
    have hbody := body?_written_of_mem preamble chapters hp hd ch hch
    exact ⟨hbody, showsBody_ofText _ _ _ hbody⟩
  · intro s hs
    have hbody := body?_written_of_notMem preamble chapters hp s hs
    exact ⟨hbody, showsPlaceholder_ofText _ _ hbody⟩

def fencedChapter : Chapter where
  subject := .pseudocode
  depth := 3
  body := "as in:\n```c\nreturn a\n``` or ```x```"
  one_le_depth := by decide
  depth_le := by decide
  body_ne := by decide
  trimmed := by decide
  plain := by decide
  no_colon := by decide

def listChapter : Chapter where
  subject := .parameters
  depth := 1
  body := "- a: x\r\n \n\n  Return Value"
  one_le_depth := by decide
  depth_le := by decide
  body_ne := by decide
  trimmed := by decide
  plain := by decide
  no_colon := by decide

theorem ofText_written_shuffled :
    body? .pseudocode (written "Description" [fencedChapter, listChapter]) =
        some fencedChapter.body ∧
      (ofText (written "Description" [fencedChapter, listChapter])).pseudocode = "c\nreturn a" ∧
      (ofText (written "Description" [fencedChapter, listChapter])).parameters =
        some ["- a: x", "Return Value"] ∧
      (ofText (written "Description" [fencedChapter, listChapter])).returnValue =
        "No return value specified." := by
  have hp : Plain "Description".toList := by decide
  have hd : ([fencedChapter, listChapter].map Chapter.subject).Nodup := by decide
  obtain ⟨hlisted, hmissing⟩ := ofText_written "Description" [fencedChapter, listChapter] hp hd
  obtain ⟨hbody, hpseudocode, _⟩ := hlisted fencedChapter (by simp)
  have hparameters : (ofText (written "Description" [fencedChapter, listChapter])).parameters =
      some ((Text.pieces listChapter.body.toList).map String.ofList) :=
    (hlisted listChapter (by simp)).2
  have hblock : FirstBlock fencedChapter.body.toList "c\nreturn a\n".toList :=
    (fenced?_eq_some_iff _ _).mp (by decide)
  refine ⟨hbody, ?_, ?_, (hmissing .returnValue (by decide)).2⟩
  · rw [hpseudocode _ hblock]
    decide
  · rw [hparameters]
    decide

end CodeAtlas.Documentation
