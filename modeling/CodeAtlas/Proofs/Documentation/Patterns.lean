import CodeAtlas.Documentation
import CodeAtlas.Proofs.Text.Line
import CodeAtlas.Proofs.Text.Pattern

namespace CodeAtlas.Documentation

open Text (Pattern isSpace trimLeft)

def stars : Pattern :=
  .inTurn [.one (· == '*'), .one (· == '*')]

def mark : Pattern :=
  .inTurn [.anyOf [.inTurn [.one (· == '#'), .upTo (· == '#') 3, .many isSpace], stars],
    .many isSpace]

def word (letters : List Char) : Pattern :=
  .inTurn (letters.map fun l => .one (sameLetter l))

def anyLabel : Pattern :=
  .anyOf (Section.all.map fun s => word s.label.toList)

def colon : Pattern :=
  .inTurn [.many isSpace, .one (· == ':')]

def restOfLine : Pattern :=
  .inTurn [.few (· != '\n'), .one (· == '\n'), .many (· == '\n')]

def header (s : Section) : Pattern :=
  .inTurn [mark, word s.label.toList, .maybe (.anyOf [stars, colon]), restOfLine]

/-- The line ends before a header of any section, with the header up to its label. -/
def boundary : Pattern :=
  .inTurn [.one (· == '\n'), .many (· == '\n'), .many isSpace, mark, anyLabel]

theorem fold_of_isSpace (c : Char) (h : isSpace c) : sameLetter.fold c = c := by
  have hs : c ≠ 'ſ' := by
    rintro rfl
    exact absurd h (by decide)
  have hu : ¬ (c.val ≥ 'A'.val ∧ c.val ≤ 'Z'.val) := by
    rintro ⟨hA, hZ⟩
    have hA' : 65 ≤ c.toNat := hA
    have hZ' : c.toNat ≤ 90 := hZ
    simp only [isSpace, Bool.or_eq_true, Bool.and_eq_true, decide_eq_true_eq, beq_iff_eq] at h
    omega
  have hlower : c.toLower = c := dif_neg hu
  rw [sameLetter.fold, if_neg hs, hlower]

theorem not_sameLetter (l c : Char) (hl : isSpace (sameLetter.fold l) = false)
    (hh : sameLetter.fold l ≠ '#') (hc : isSpace c ∨ c = '#') : sameLetter l c = false := by
  rw [sameLetter, beq_eq_false_iff_ne]
  obtain h | rfl := hc
  · rw [fold_of_isSpace c h]
    rintro rfl
    exact absurd (h.symm.trans hl) (by decide)
  · exact hh

theorem afterLabel?_of_not_letter (s : Section) (c : Char) (cs : List Char)
    (hc : isSpace c ∨ c = '#') : afterLabel? s.label.toList (c :: cs) = none := by
  cases s
  · simp [Section.label, afterLabel?, not_sameLetter 'D' c rfl (by decide) hc]
  · simp [Section.label, afterLabel?, not_sameLetter 'P' c rfl (by decide) hc]
  · simp [Section.label, afterLabel?, not_sameLetter 'R' c rfl (by decide) hc]
  · simp [Section.label, afterLabel?, not_sameLetter 'P' c rfl (by decide) hc]

variable {α : Type} (k : List Char → Option α)

theorem then?_word (letters cs : List Char) :
    (word letters).then? k cs = (afterLabel? letters cs).bind k := by
  induction letters generalizing cs with
  | nil =>
    rw [word, List.map_nil, Pattern.then?_inTurn_nil]
    rfl
  | cons l letters ih =>
    rw [word, List.map_cons, Pattern.then?_inTurn_cons, ← word]
    cases cs with
    | nil => rfl
    | cons c cs =>
      rw [Pattern.then?_one_cons, ih, afterLabel?]
      split <;> rfl

theorem then?_stars (rest : List Char) : stars.then? k ('*' :: '*' :: rest) = k rest := by
  simp [stars]

theorem then?_stars_of_ne (cs : List Char) (h : ∀ rest, cs ≠ '*' :: '*' :: rest) :
    stars.then? k cs = none := by
  rw [stars, Pattern.then?_inTurn_cons, Pattern.then?_inTurn_cons, Pattern.then?_inTurn_nil]
  cases cs with
  | nil => rfl
  | cons c cs =>
    by_cases hc : c = '*'
    · cases cs with
      | nil => simp
      | cons d cs =>
        have hd : d ≠ '*' := fun hd => h cs (by rw [hc, hd])
        simp [hd]
    · simp [hc]

theorem afterMark?_hash (cs : List Char) :
    afterMark? ('#' :: cs) =
      if (cs.takeWhile (· == '#')).length ≤ 3 then some (trimLeft (cs.dropWhile (· == '#')))
      else none := by
  have hdrop : cs.drop (cs.takeWhile (· == '#')).length = cs.dropWhile (· == '#') := by
    conv_lhs =>
      arg 2
      rw [← List.takeWhile_append_dropWhile (p := (· == '#')) (l := cs)]
    exact List.drop_left
  have hmark : afterMark? ('#' :: cs) =
      if 1 ≤ (cs.takeWhile (· == '#')).length + 1 ∧ (cs.takeWhile (· == '#')).length + 1 ≤ 4 then
        some (trimLeft (cs.drop (cs.takeWhile (· == '#')).length))
      else none := rfl
  have hcount : ∀ n, 1 ≤ n + 1 ∧ n + 1 ≤ 4 ↔ n ≤ 3 := by omega
  rw [hmark, hdrop]
  simp only [hcount]

theorem afterMark?_of_ne (c : Char) (cs : List Char) (hc : c ≠ '#')
    (hs : ∀ rest, c :: cs ≠ '*' :: '*' :: rest) : afterMark? (c :: cs) = none := by
  unfold afterMark?
  split
  · next rest he => exact absurd he (hs rest)
  · simp [hc]

theorem afterMark?_of_plain (c : Char) (cs : List Char) (hc : c ≠ '#') (hs : c ≠ '*') :
    afterMark? (c :: cs) = none :=
  afterMark?_of_ne c cs hc fun _ he => hs (List.cons.inj he).1

theorem then?_mark (hspace : Pattern.Rejects k isSpace) (hhash : Pattern.Rejects k (· == '#'))
    (cs : List Char) : mark.then? k cs = (afterMark? cs).bind k := by
  have hlast : (Pattern.many isSpace).then? k = fun cs => k (trimLeft cs) := by
    funext cs
    exact Pattern.then?_many k isSpace hspace cs
  have hskip : (Pattern.many isSpace).then? (fun cs => k (trimLeft cs)) =
      fun cs => k (trimLeft cs) := by
    funext cs
    apply Pattern.then?_many_of_skips
    intro c cs hc
    simp [trimLeft, hc]
  have hreject : Pattern.Rejects (fun cs => k (trimLeft cs)) (· == '#') := by
    intro c cs hc
    rw [beq_iff_eq.mp hc]
    exact hhash '#' cs rfl
  rw [mark, Pattern.then?_inTurn_cons, Pattern.then?_inTurn_cons, Pattern.then?_inTurn_nil, hlast,
    Pattern.then?_anyOf_cons, Pattern.then?_anyOf_cons, Pattern.then?_anyOf_nil, Option.or_none]
  by_cases hs : ∃ rest, cs = '*' :: '*' :: rest
  · obtain ⟨rest, rfl⟩ := hs
    rw [then?_stars]
    simp [afterMark?]
  · have hne : ∀ rest, cs ≠ '*' :: '*' :: rest := fun rest he => hs ⟨rest, he⟩
    rw [then?_stars_of_ne _ cs hne, Option.or_none]
    simp only [Pattern.then?_inTurn_cons, Pattern.then?_inTurn_nil, hskip]
    cases cs with
    | nil => rfl
    | cons c cs =>
      by_cases hc : c = '#'
      · subst hc
        rw [afterMark?_hash, Pattern.then?_one_cons, Pattern.then?_upTo _ _ hreject]
        by_cases h : (cs.takeWhile (· == '#')).length ≤ 3
        · simp [h]
        · simp [h]
      · rw [afterMark?_of_ne c cs hc hne]
        simp [hc]

theorem rejects_word (s : Section) (p : Char → Bool) (hp : ∀ c, p c → isSpace c ∨ c = '#') :
    Pattern.Rejects ((word s.label.toList).then? k) p := by
  intro c cs hc
  rw [then?_word, afterLabel?_of_not_letter s c cs (hp c hc)]
  rfl

theorem then?_heading (s : Section) (cs : List Char) :
    mark.then? ((word s.label.toList).then? k) cs = (afterHeading? s cs).bind k := by
  rw [then?_mark, afterHeading?, Option.bind_assoc]
  · congr 1
    funext rest
    exact then?_word k s.label.toList rest
  · exact rejects_word k s isSpace fun c hc => Or.inl hc
  · exact rejects_word k s _ fun c hc => Or.inr (beq_iff_eq.mp hc)

theorem eq_newline_of_dropWhile (cs rest : List Char) (c : Char)
    (h : cs.dropWhile (· != '\n') = c :: rest) : c = '\n' := by
  have hn := List.head?_dropWhile_not (· != '\n') cs
  rw [h] at hn
  simpa using hn

theorem then?_restOfLine : restOfLine.then? some = afterLine? := by
  funext cs
  rw [restOfLine, Pattern.then?_inTurn_cons, Pattern.then?_inTurn_cons, Pattern.then?_inTurn_cons,
    Pattern.then?_inTurn_nil, Pattern.then?_few]
  · rw [afterLine?]
    cases hd : cs.dropWhile (· != '\n') with
    | nil => rfl
    | cons c rest =>
      obtain rfl := eq_newline_of_dropWhile cs rest c hd
      simp [Pattern.then?_many_some]
  · intro c cs hc
    rw [Pattern.then?_one_cons, if_neg]
    simpa using hc

theorem then?_colon (cs : List Char) :
    colon.then? k cs = (Pattern.one (· == ':')).then? k (trimLeft cs) := by
  rw [colon, Pattern.then?_inTurn_cons, Pattern.then?_inTurn_cons, Pattern.then?_inTurn_nil]
  apply Pattern.then?_many
  intro c cs hc
  rw [Pattern.then?_one_cons, if_neg]
  intro he
  rw [beq_iff_eq.mp he] at hc
  exact absurd hc (by decide)

theorem labelEnds_cases (tail : List Char) :
    (∃ rest, tail = '*' :: '*' :: rest ∧ labelEnds tail = [rest, tail]) ∨
      (∀ rest, tail ≠ '*' :: '*' :: rest) ∧
        ((∃ rest, trimLeft tail = ':' :: rest ∧ labelEnds tail = [rest, tail]) ∨
          (∀ rest, trimLeft tail ≠ ':' :: rest) ∧ labelEnds tail = [tail]) := by
  unfold labelEnds
  split
  · next rest => exact Or.inl ⟨rest, rfl, rfl⟩
  · next rest hne hcolon => exact Or.inr ⟨hne, Or.inl ⟨rest, hcolon, rfl⟩⟩
  · next hne hcolon => exact Or.inr ⟨hne, Or.inr ⟨hcolon, rfl⟩⟩

theorem findSome?_labelEnds (tail : List Char) :
    (Pattern.maybe (.anyOf [stars, colon])).then? k tail = (labelEnds tail).findSome? k := by
  have hpair : ∀ a b, [a, b].findSome? k = (k a).or (k b) := by
    intro a b
    cases ha : k a <;> simp [ha]
  rw [Pattern.then?_maybe, Pattern.then?_anyOf_cons, Pattern.then?_anyOf_cons,
    Pattern.then?_anyOf_nil, Option.or_none, then?_colon]
  obtain ⟨rest, rfl, he⟩ | ⟨hne, ⟨rest, hcolon, he⟩ | ⟨hcolon, he⟩⟩ := labelEnds_cases tail
  · have hl : trimLeft ('*' :: '*' :: rest) = '*' :: '*' :: rest := rfl
    rw [he, then?_stars, hl, Pattern.then?_one_cons, if_neg (by decide), Option.or_none, hpair]
  · rw [he, then?_stars_of_ne k tail hne, hcolon, Pattern.then?_one_cons, if_pos (by decide),
      Option.none_or, hpair]
  · have hno : (Pattern.one (· == ':')).then? k (trimLeft tail) = none := by
      cases hl : trimLeft tail with
      | nil => rfl
      | cons c rest =>
        rw [Pattern.then?_one_cons, if_neg]
        intro hc
        exact hcolon rest (by rw [hl, beq_iff_eq.mp hc])
    rw [he, then?_stars_of_ne k tail hne, hno, Option.none_or, Option.none_or]
    simp

theorem head?_rests_header (s : Section) (cs : List Char) :
    ((header s).rests cs).head? = afterHeader? s cs := by
  rw [← Pattern.then?_some, header, Pattern.then?_inTurn_cons, Pattern.then?_inTurn_cons,
    then?_heading, afterHeader?]
  congr 1
  funext rest
  rw [Pattern.then?_inTurn_cons, Pattern.then?_inTurn_cons, Pattern.then?_inTurn_nil,
    then?_restOfLine, findSome?_labelEnds]

theorem then?_anyLabel (cs : List Char) :
    anyLabel.then? some cs =
      Section.all.findSome? fun s => afterLabel? s.label.toList cs := by
  have hany : ∀ l : List Section,
      (Pattern.anyOf (l.map fun s => word s.label.toList)).then? some cs =
        l.findSome? fun s => afterLabel? s.label.toList cs := by
    intro l
    induction l with
    | nil => rfl
    | cons s l ih =>
      rw [List.map_cons, Pattern.then?_anyOf_cons, ih, then?_word, List.findSome?_cons]
      cases afterLabel? s.label.toList cs <;> rfl
  exact hany Section.all

theorem rejects_anyLabel (p : Char → Bool) (hp : ∀ c, p c → isSpace c ∨ c = '#') :
    Pattern.Rejects (anyLabel.then? some) p := by
  intro c cs hc
  rw [then?_anyLabel, List.findSome?_eq_none_iff]
  intro s _
  exact afterLabel?_of_not_letter s c cs (hp c hc)

theorem then?_anyHeading (cs : List Char) :
    mark.then? (anyLabel.then? some) cs =
      (afterMark? cs).bind fun rest => Section.all.findSome? fun s =>
        afterLabel? s.label.toList rest := by
  rw [then?_mark]
  · congr 1
    funext rest
    exact then?_anyLabel rest
  · exact rejects_anyLabel isSpace fun c hc => Or.inl hc
  · exact rejects_anyLabel _ fun c hc => Or.inr (beq_iff_eq.mp hc)

theorem isSome_anyHeading (cs : List Char) :
    ((afterMark? cs).bind fun rest => Section.all.findSome? fun s =>
      afterLabel? s.label.toList rest).isSome =
      Section.all.any fun s => (afterHeading? s cs).isSome := by
  cases hm : afterMark? cs with
  | none => simp [afterHeading?, hm]
  | some rest =>
    rw [Bool.eq_iff_iff]
    simp [afterHeading?, hm, List.any_eq_true]

theorem then?_boundary (cs : List Char) :
    boundary.then? some ('\n' :: cs) =
      (afterMark? (trimLeft cs)).bind fun rest => Section.all.findSome? fun s =>
        afterLabel? s.label.toList rest := by
  -- the white space takes the line ends with it, so their run adds nothing
  have hspace : (Pattern.many isSpace).then? (mark.then? (anyLabel.then? some)) =
      fun cs => mark.then? (anyLabel.then? some) (trimLeft cs) := by
    funext cs
    apply Pattern.then?_many
    intro c cs hc
    rw [then?_anyHeading, afterMark?_of_plain]
    · rfl
    · rintro rfl
      exact absurd hc (by decide)
    · rintro rfl
      exact absurd hc (by decide)
  simp only [boundary, Pattern.then?_inTurn_cons, Pattern.then?_inTurn_nil, hspace]
  rw [Pattern.then?_one_cons, if_pos (by decide), Pattern.then?_many_of_skips, then?_anyHeading]
  intro c cs hc
  rw [beq_iff_eq.mp hc]
  rfl

theorem atBoundary_of_ne (c : Char) (cs : List Char) (hc : c ≠ '\n') :
    atBoundary (c :: cs) = false := by
  unfold atBoundary
  split
  · next he => exact absurd (List.cons.inj he).1 hc
  · rfl

theorem head?_rests_boundary (cs : List Char) :
    (boundary.rests cs).head?.isSome = atBoundary cs := by
  rw [← Pattern.then?_some]
  cases cs with
  | nil => rfl
  | cons c cs =>
    by_cases hc : c = '\n'
    · subst hc
      rw [then?_boundary, isSome_anyHeading]
      rfl
    · rw [atBoundary_of_ne c cs hc, boundary, Pattern.then?_inTurn_cons, Pattern.then?_one_cons,
        if_neg (by simpa using hc)]
      rfl

theorem findHeader?_eq (s : Section) (cs : List Char) :
    findHeader? s cs = ((header s).find? cs).map Prod.snd := by
  induction cs with
  | nil =>
    rw [Pattern.find?, head?_rests_header]
    rfl
  | cons c cs ih =>
    rw [findHeader?, Pattern.find?, head?_rests_header]
    cases afterHeader? s (c :: cs) with
    | some rest => rfl
    | none =>
      rw [ih, Option.map_map]
      rfl

theorem beforeBoundary_eq (cs : List Char) :
    beforeBoundary cs = (boundary.find? cs).elim cs Prod.fst := by
  induction cs with
  | nil =>
    rw [Pattern.find?]
    rfl
  | cons c cs ih =>
    rw [beforeBoundary, Pattern.find?, ← head?_rests_boundary]
    cases (boundary.rests (c :: cs)).head? with
    | some rest => rfl
    | none =>
      rw [ih]
      cases boundary.find? cs <;> rfl

theorem findHeader?_eq_some_iff (s : Section) (cs rest : List Char) :
    findHeader? s cs = some rest ↔
      ∃ before found, (header s).FirstMatch cs before found rest := by
  rw [findHeader?_eq, Option.map_eq_some_iff]
  constructor
  · rintro ⟨m, hm, rfl⟩
    exact ⟨m.1, ((header s).find?_eq_some_iff cs m.1 m.2).mp hm⟩
  · rintro ⟨before, hf⟩
    exact ⟨(before, rest), ((header s).find?_eq_some_iff cs before rest).mpr hf, rfl⟩

theorem findHeader?_eq_none_iff (s : Section) (cs : List Char) :
    findHeader? s cs = none ↔ ¬ (header s).Occurs cs := by
  rw [findHeader?_eq, Option.map_eq_none_iff, Pattern.find?_eq_none_iff]

theorem ends_beforeBoundary (cs : List Char) : boundary.Ends cs (beforeBoundary cs) :=
  (boundary.ends_iff cs _).mpr (beforeBoundary_eq cs)

def fenceMark : Pattern :=
  .inTurn (fence.map fun c => .one (· == c))

def fencedBlock : Pattern :=
  .inTurn [fenceMark, .few fun _ => true, fenceMark]

def FirstBlock (text inside : List Char) : Prop :=
  ∃ before rest, fencedBlock.FirstMatch text before (fence ++ inside ++ fence) rest

theorem matches_fenceMark_iff (t : List Char) : fenceMark.Matches t ↔ t = fence := by
  constructor
  · rintro ⟨_, _, rfl, ⟨_, rfl, ha⟩, _, _, rfl, ⟨_, rfl, hb⟩, _, _, rfl, ⟨_, rfl, hc⟩, rfl⟩
    rw [beq_iff_eq.mp ha, beq_iff_eq.mp hb, beq_iff_eq.mp hc]
    rfl
  · rintro rfl
    exact ⟨['`'], ['`', '`'], rfl, ⟨_, rfl, rfl⟩, ['`'], ['`'], rfl, ⟨_, rfl, rfl⟩, ['`'], [], rfl,
      ⟨_, rfl, rfl⟩, rfl⟩

theorem matches_fencedBlock_iff (t : List Char) :
    fencedBlock.Matches t ↔ ∃ inside, t = fence ++ inside ++ fence := by
  constructor
  · rintro ⟨a, _, rfl, ha, inside, _, rfl, _, b, _, rfl, hb, rfl⟩
    rw [(matches_fenceMark_iff a).mp ha, (matches_fenceMark_iff b).mp hb]
    exact ⟨inside, by simp⟩
  · rintro ⟨inside, rfl⟩
    exact ⟨fence, inside ++ fence, by simp, (matches_fenceMark_iff fence).mpr rfl, inside, fence,
      rfl, fun _ _ => rfl, fence, [], by simp, (matches_fenceMark_iff fence).mpr rfl, rfl⟩

theorem then?_fenceMark_append (rest : List Char) : fenceMark.then? k (fence ++ rest) = k rest := by
  simp [fenceMark, fence]

theorem then?_fenceMark_of_not (cs : List Char) (h : ¬ fence.isPrefixOf cs) :
    fenceMark.then? k cs = none := by
  have hnil : fenceMark.rests cs = [] := by
    rw [List.eq_nil_iff_forall_not_mem]
    intro rest hr
    obtain ⟨found, hs, hm⟩ := (fenceMark.mem_rests_iff cs rest).mp hr
    rw [(matches_fenceMark_iff found).mp hm] at hs
    exact h (List.isPrefixOf_iff_prefix.mpr ⟨rest, hs.symm⟩)
  rw [Pattern.then?, hnil, List.findSome?_nil]

theorem splitAtFence?_eq (cs : List Char) : splitAtFence? cs = fenceMark.find? cs := by
  induction cs with
  | nil => rfl
  | cons c cs ih =>
    rw [splitAtFence?, Pattern.find?, ← Pattern.then?_some]
    split
    · next h =>
      obtain ⟨rest, hr⟩ := List.isPrefixOf_iff_prefix.mp h
      rw [← hr, then?_fenceMark_append]
      rfl
    · next h => rw [then?_fenceMark_of_not some _ h, ih]

theorem then?_fencedBlock (rest : List Char) :
    fencedBlock.then? some (fence ++ rest) = (fenceMark.find? rest).map Prod.snd := by
  rw [fencedBlock, Pattern.then?_inTurn_cons, then?_fenceMark_append, Pattern.then?_inTurn_cons,
    Pattern.then?_inTurn_cons, Pattern.then?_inTurn_nil, Pattern.then?_few_any]

theorem firstBlock_of_fenced? (cs inside : List Char) (h : fenced? cs = some inside) :
    FirstBlock cs inside := by
  rw [fenced?, splitAtFence?_eq] at h
  cases hm : fenceMark.find? cs with
  | none => simp [hm] at h
  | some m =>
    obtain ⟨before, rest⟩ := m
    rw [hm] at h
    dsimp only at h
    rw [splitAtFence?_eq, Option.map_eq_some_iff] at h
    obtain ⟨⟨_, after⟩, hr, rfl⟩ := h
    obtain ⟨f, hopen⟩ := (fenceMark.find?_eq_some_iff cs before rest).mp hm
    obtain ⟨g, hclose⟩ := (fenceMark.find?_eq_some_iff rest _ after).mp hr
    obtain rfl := (matches_fenceMark_iff f).mp hopen.matches_found
    obtain rfl := (matches_fenceMark_iff g).mp hclose.matches_found
    refine ⟨before, after, ?_, ?_, ?_⟩
    · rw [hopen.split, hclose.split]
      simp only [List.append_assoc]
    · intro a u v hs hu
      obtain ⟨w, rfl⟩ := (matches_fencedBlock_iff u).mp hu
      apply hopen.leftmost a fence (w ++ fence ++ v)
      · rw [hs]
        simp only [List.append_assoc]
      · exact (matches_fenceMark_iff fence).mpr rfl
    · have hrest := hclose.split
      rw [List.append_assoc] at hrest
      rw [List.append_assoc, List.append_assoc, ← hrest, ← Pattern.then?_some, then?_fencedBlock, hr]
      rfl

/-- The reader takes the first two fences. A block that is not closed there is closed nowhere. -/
theorem fenced?_eq_some_iff (cs inside : List Char) :
    fenced? cs = some inside ↔ FirstBlock cs inside := by
  refine ⟨firstBlock_of_fenced? cs inside, ?_⟩
  rintro ⟨before, rest, hblock⟩
  have hs : cs = before ++ fence ++ (inside ++ fence ++ rest) := by
    rw [hblock.split]
    simp only [List.append_assoc]
  have hmark := (matches_fenceMark_iff fence).mpr rfl
  cases hm : fenceMark.find? cs with
  | none => exact absurd ⟨before, fence, _, hs, hmark⟩ ((fenceMark.find?_eq_none_iff cs).mp hm)
  | some m =>
    obtain ⟨b, r⟩ := m
    obtain ⟨f, hopen⟩ := (fenceMark.find?_eq_some_iff cs b r).mp hm
    obtain rfl := (matches_fenceMark_iff f).mp hopen.matches_found
    have hle := hopen.leftmost before fence _ hs hmark
    have hsuffix : inside ++ fence ++ rest <:+ r := by
      have hlen := congrArg List.length (hopen.split.symm.trans hs)
      simp only [List.length_append] at hlen
      apply List.suffix_of_suffix_length_le ⟨before ++ fence, hs.symm⟩ ⟨b ++ fence, hopen.split.symm⟩
      simp only [List.length_append]
      omega
    obtain ⟨x, hx⟩ := hsuffix
    cases hr : fenceMark.find? r with
    | none =>
      have ho : fenceMark.Occurs r := ⟨x ++ inside, fence, rest, by simp [← hx], hmark⟩
      exact absurd ho ((fenceMark.find?_eq_none_iff r).mp hr)
    | some m =>
      have hf : fenced? cs = some m.1 := by
        rw [fenced?, splitAtFence?_eq, hm]
        dsimp only
        rw [splitAtFence?_eq, hr]
        rfl
      obtain ⟨before', rest', hblock'⟩ := firstBlock_of_fenced? cs m.1 hf
      obtain ⟨_, he, _⟩ := hblock.unique hblock'
      rw [hf, List.append_cancel_left (List.append_cancel_right he)]

end CodeAtlas.Documentation
