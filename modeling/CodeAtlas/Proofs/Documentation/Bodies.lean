import CodeAtlas.Proofs.Documentation.Patterns

namespace CodeAtlas.Documentation

open Text (Pattern Blank isSpace trimLeft)

theorem body?_eq_some_iff (s : Section) (text body : String) :
    body? s text = some body ↔
      body ≠ "" ∧ ∃ rest, findHeader? s text.toList = some rest ∧
        Text.trim (beforeBoundary rest) = body.toList := by
  rw [body?]
  cases findHeader? s text.toList with
  | none => simp
  | some rest =>
    simp only [Option.some.injEq, exists_eq_left']
    split
    · next hnil =>
      rw [hnil]
      constructor
      · intro h
        cases h
      · rintro ⟨hne, he⟩
        exact absurd (String.toList_eq_nil_iff.mp he.symm) hne
    · next hne =>
      rw [Option.some.injEq]
      constructor
      · rintro rfl
        rw [String.toList_ofList]
        exact ⟨fun he => hne (String.ofList_eq_empty_iff.mp he), rfl⟩
      · rintro ⟨_, he⟩
        rw [he, String.ofList_toList]

theorem body?_eq_none_iff (s : Section) (text : String) :
    body? s text = none ↔
      findHeader? s text.toList = none ∨ ∃ rest, findHeader? s text.toList = some rest ∧
        Text.trim (beforeBoundary rest) = [] := by
  rw [body?]
  cases findHeader? s text.toList with
  | none => simp
  | some rest =>
    dsimp only
    split
    · next hnil => simp [hnil]
    · next hne => simpa using hne

theorem not_matches_boundary_nil : ¬ boundary.Matches [] := by
  rintro ⟨u, v, hs, ⟨c, rfl, _⟩, _⟩
  simp at hs

/-- A body lies between the first header of its section and the next boundary, with nothing but
white space around it, and no boundary lies within it. There is none exactly if there is no such
header or nothing but white space follows it. -/
theorem body?_between_headers (s : Section) (text : String) :
    (∀ body, body? s text = some body →
        body ≠ "" ∧ Text.trim body.toList = body.toList ∧ ¬ boundary.Occurs body.toList ∧
          ∃ before found lead trail rest,
            (header s).FirstMatch text.toList before found (lead ++ body.toList ++ trail ++ rest) ∧
              boundary.Ends (lead ++ body.toList ++ trail ++ rest)
                (lead ++ body.toList ++ trail) ∧
              Blank lead ∧ Blank trail) ∧
      (body? s text = none ↔
        ¬ (header s).Occurs text.toList ∨ ∃ before found rest stretch,
          (header s).FirstMatch text.toList before found rest ∧ boundary.Ends rest stretch ∧
            Blank stretch) := by
  constructor
  · intro body hbody
    obtain ⟨hne, rest, hfind, htrim⟩ := (body?_eq_some_iff s text body).mp hbody
    obtain ⟨before, found, hfirst⟩ := (findHeader?_eq_some_iff s text.toList rest).mp hfind
    obtain ⟨lead, trail, hstretch, hlead, htrail⟩ := Text.exists_trim (beforeBoundary rest)
    have hends := ends_beforeBoundary rest
    rw [htrim] at hstretch
    refine ⟨hne, ?_, ?_, ?_⟩
    · rw [← htrim, Text.trim_trim]
    · intro hocc
      have hno := hends.not_occurs not_matches_boundary_nil
      exact hno (hstretch ▸ hocc.append lead trail)
    · obtain ⟨tail, htail⟩ := hends.exists_append
      rw [hstretch] at hends htail
      exact ⟨before, found, lead, trail, tail, htail ▸ hfirst, htail ▸ hends, hlead, htrail⟩
  · rw [body?_eq_none_iff, findHeader?_eq_none_iff]
    apply or_congr_right
    constructor
    · rintro ⟨rest, hfind, htrim⟩
      obtain ⟨before, found, hfirst⟩ := (findHeader?_eq_some_iff s text.toList rest).mp hfind
      exact ⟨before, found, rest, beforeBoundary rest, hfirst, ends_beforeBoundary rest,
        (Text.trim_eq_nil_iff _).mp htrim⟩
    · rintro ⟨before, found, rest, stretch, hfirst, hends, hblank⟩
      refine ⟨rest, (findHeader?_eq_some_iff s text.toList rest).mpr ⟨before, found, hfirst⟩, ?_⟩
      rw [Text.trim_eq_nil_iff, beforeBoundary_eq, ← (boundary.ends_iff rest stretch).mp hends]
      exact hblank

/-- A header on the line of its text, a body that looks like a header at its very front, a long s in
a label, and a section with nothing in it. -/
def crowded : String :=
  "**Description:** Maps a page.\n\n**Parameters:**\n- va\n \n#### Return Value\n \n\t# Pſeudocode\nx"

theorem body?_between_headers_crowded :
    body? .description crowded = some "**Parameters:**\n- va" ∧
      ¬ boundary.Occurs "**Parameters:**\n- va".toList ∧
      body? .returnValue crowded = none ∧
      ∃ before found rest stretch,
        (header .returnValue).FirstMatch crowded.toList before found rest ∧
          boundary.Ends rest stretch ∧ Blank stretch := by
  have hd : body? .description crowded = some "**Parameters:**\n- va" := by decide
  have hr : body? .returnValue crowded = none := by decide
  obtain ⟨_, _, hno, _⟩ := (body?_between_headers .description crowded).1 _ hd
  refine ⟨hd, hno, hr, ?_⟩
  obtain hnone | hblank := (body?_between_headers .returnValue crowded).2.mp hr
  · rw [← findHeader?_eq_none_iff] at hnone
    exact absurd hnone (by decide)
  · exact hblank

structure LineEnds (ends rest : List Char) : Prop where
  ne_nil : ends ≠ []
  eq_newline : ∀ c ∈ ends, c = '\n'
  stops : rest.head? ≠ some '\n'

theorem exists_afterLine? (cs rest : List Char) (h : afterLine? cs = some rest) :
    ∃ line ends, cs = line ++ ends ++ rest ∧ '\n' ∉ line ∧ LineEnds ends rest := by
  have hcs := List.takeWhile_append_dropWhile (p := (· != '\n')) (l := cs)
  rw [afterLine?] at h
  cases hd : cs.dropWhile (· != '\n') with
  | nil =>
    rw [hd] at h
    cases h
  | cons c tail =>
    rw [hd] at h hcs
    obtain rfl := Option.some.inj h
    have hc := eq_newline_of_dropWhile cs tail c hd
    refine ⟨cs.takeWhile (· != '\n'), (c :: tail).takeWhile (· == '\n'), ?_, ?_, ?_, ?_, ?_⟩
    · rw [List.append_assoc, List.takeWhile_append_dropWhile, hcs]
    · intro hm
      simpa using List.mem_takeWhile_imp hm
    · simp [hc]
    · intro x hx
      have he := List.mem_takeWhile_imp hx
      exact beq_iff_eq.mp he
    · intro hn
      have hnot := List.head?_dropWhile_not (· == '\n') (c :: tail)
      rw [hn] at hnot
      simp at hnot

theorem LineEnds.eq_cons {ends rest : List Char} (h : LineEnds ends rest) :
    ∃ more, ends = '\n' :: more := by
  cases ends with
  | nil => exact absurd rfl h.ne_nil
  | cons c more => exact ⟨more, by rw [h.eq_newline c List.mem_cons_self]⟩

theorem afterLine?_append (line ends rest : List Char) (hline : '\n' ∉ line)
    (hends : LineEnds ends rest) : afterLine? (line ++ ends ++ rest) = some rest := by
  have hfirst : (line ++ ends ++ rest).dropWhile (· != '\n') = ends ++ rest := by
    obtain ⟨more, rfl⟩ := hends.eq_cons
    rw [List.append_assoc, List.dropWhile_append_of_pos]
    · rfl
    · intro c hc
      have hne : c ≠ '\n' := fun he => hline (he ▸ hc)
      simpa using hne
  have hlast : (ends ++ rest).dropWhile (· == '\n') = rest := by
    rw [List.dropWhile_append_of_pos fun c hc => beq_iff_eq.mpr (hends.eq_newline c hc)]
    cases rest with
    | nil => rfl
    | cons c rest =>
      have hc : c ≠ '\n' := fun he => hends.stops (by rw [he]; rfl)
      simp [hc]
  obtain ⟨more, hmore⟩ := hends.eq_cons
  rw [afterLine?, hfirst, hmore, List.cons_append]
  rw [hmore] at hlast
  exact congrArg some hlast

theorem afterLine?_eq_none_iff (cs : List Char) : afterLine? cs = none ↔ '\n' ∉ cs := by
  constructor
  · intro h hm
    rw [afterLine?] at h
    split at h
    · next hd =>
      have hne := List.dropWhile_eq_nil_iff.mp hd '\n' hm
      simp at hne
    · cases h
  · intro h
    by_contra hne
    obtain ⟨rest, hr⟩ := Option.ne_none_iff_exists'.mp hne
    obtain ⟨line, ends, rfl, _, hends⟩ := exists_afterLine? cs rest hr
    obtain ⟨more, rfl⟩ := hends.eq_cons
    exact h (by simp)

/-- Nothing but white space comes before a colon on a later line, and that line has an end. -/
def ColonBelow (tail : List Char) : Prop :=
  ∃ blank more, tail = blank ++ ':' :: more ∧ Blank blank ∧ '\n' ∈ blank ∧ '\n' ∈ more

theorem trimLeft_append_colon (blank more : List Char) (hb : Blank blank) :
    trimLeft (blank ++ ':' :: more) = ':' :: more := by
  rw [trimLeft, List.dropWhile_append_of_pos hb]
  rfl

theorem colonBelow_iff (blank more : List Char) (hb : Blank blank) :
    ColonBelow (blank ++ ':' :: more) ↔ '\n' ∈ blank ∧ '\n' ∈ more := by
  constructor
  · rintro ⟨blank', more', he, hb', hn, hm⟩
    have hmore : more = more' := by
      have h := trimLeft_append_colon blank more hb
      rw [he, trimLeft_append_colon blank' more' hb'] at h
      exact (List.cons.inj h).2.symm
    subst hmore
    rw [List.append_cancel_right he]
    exact ⟨hn, hm⟩
  · rintro ⟨hn, hm⟩
    exact ⟨blank, more, rfl, hb, hn, hm⟩

theorem not_colonBelow_of_trimLeft (tail : List Char) (h : ∀ more, trimLeft tail ≠ ':' :: more) :
    ¬ ColonBelow tail := by
  rintro ⟨blank, more, rfl, hb, _⟩
  exact h more (trimLeft_append_colon blank more hb)

theorem exists_line (tail rest : List Char)
    (h : (labelEnds tail).findSome? afterLine? = some rest) :
    (¬ ColonBelow tail ∧
        ∃ line ends, tail = line ++ ends ++ rest ∧ '\n' ∉ line ∧ LineEnds ends rest) ∨
      ∃ blank more ends, tail = (blank ++ ':' :: more) ++ ends ++ rest ∧ Blank blank ∧
        '\n' ∈ blank ∧ '\n' ∉ more ∧ LineEnds ends rest := by
  obtain ⟨more, rfl, he⟩ | ⟨_, ⟨more, hcolon, he⟩ | ⟨hcolon, he⟩⟩ := labelEnds_cases tail
  · left
    have hno : ¬ ColonBelow ('*' :: '*' :: more) := by
      apply not_colonBelow_of_trimLeft
      intro m hm
      exact absurd (List.cons.inj hm).1 (by decide)
    refine ⟨hno, ?_⟩
    rw [he, List.findSome?_cons] at h
    cases hm : afterLine? more with
    | none =>
      rw [hm] at h
      have hno : '\n' ∉ '*' :: '*' :: more := by
        simpa using (afterLine?_eq_none_iff more).mp hm
      simp [(afterLine?_eq_none_iff _).mpr hno] at h
    | some r =>
      rw [hm] at h
      obtain rfl := Option.some.inj h
      obtain ⟨line, ends, rfl, hline, hends⟩ := exists_afterLine? more r hm
      exact ⟨'*' :: '*' :: line, ends, rfl, by simpa using hline, hends⟩
  · have htail : tail = tail.takeWhile isSpace ++ ':' :: more := by
      rw [← hcolon, trimLeft, List.takeWhile_append_dropWhile]
    have hb : Blank (tail.takeWhile isSpace) := fun c hc => List.mem_takeWhile_imp hc
    generalize tail.takeWhile isSpace = blank at htail hb
    subst htail
    rw [he, List.findSome?_cons] at h
    rw [colonBelow_iff blank more hb]
    cases hm : afterLine? more with
    | none =>
      left
      rw [hm] at h
      have hno := (afterLine?_eq_none_iff more).mp hm
      refine ⟨fun hc => hno hc.2, ?_⟩
      have hr : afterLine? (blank ++ ':' :: more) = some rest := by simpa using h
      exact exists_afterLine? _ rest hr
    | some r =>
      rw [hm] at h
      obtain rfl := Option.some.inj h
      obtain ⟨line, ends, rfl, hline, hends⟩ := exists_afterLine? more r hm
      by_cases hn : '\n' ∈ blank
      · exact Or.inr ⟨blank, line, ends, by simp, hb, hn, hline, hends⟩
      · exact Or.inl ⟨fun hc => hn hc.1, blank ++ ':' :: line, ends, by simp,
          by simp [hn, hline], hends⟩
  · left
    refine ⟨not_colonBelow_of_trimLeft tail hcolon, ?_⟩
    have hr : afterLine? tail = some rest := by simpa [he] using h
    exact exists_afterLine? tail rest hr

structure HeaderParts (s : Section) (text before sign name line ends rest : List Char) : Prop where
  first : (header s).FirstMatch text before (sign ++ name ++ line ++ ends) rest
  sign_matches : mark.Matches sign
  name_matches : (word s.label.toList).Matches name
  line_ends : LineEnds ends rest

theorem exists_heading (s : Section) (cs tail : List Char) (h : afterHeading? s cs = some tail) :
    ∃ sign name, cs = sign ++ name ++ tail ∧ mark.Matches sign ∧
      (word s.label.toList).Matches name := by
  have ht := then?_heading some s cs
  rw [h, Option.bind_some] at ht
  obtain ⟨mid, hmid, hname⟩ := List.exists_of_findSome?_eq_some ht
  obtain ⟨tail', htail', he⟩ := List.exists_of_findSome?_eq_some hname
  obtain rfl := Option.some.inj he
  obtain ⟨sign, rfl, hsign⟩ := (Pattern.mem_rests_iff _ _ _).mp hmid
  obtain ⟨name, rfl, hword⟩ := (Pattern.mem_rests_iff _ _ _).mp htail'
  exact ⟨sign, name, (List.append_assoc sign name _).symm, hsign, hword⟩

theorem afterHeading?_of_matches (s : Section) (sign name tail : List Char)
    (hsign : mark.Matches sign) (hname : (word s.label.toList).Matches name) :
    afterHeading? s (sign ++ name ++ tail) = some tail := by
  -- a reader that takes no other rest must find this one
  have ht := then?_heading (fun r => if r = tail then some r else none) s (sign ++ name ++ tail)
  have hmid := (mark.mem_rests_iff (sign ++ name ++ tail) (name ++ tail)).mpr
    ⟨sign, List.append_assoc sign name tail, hsign⟩
  have htail := ((word s.label.toList).mem_rests_iff (name ++ tail) tail).mpr ⟨name, rfl, hname⟩
  have hne : (mark.then? ((word s.label.toList).then? fun r => if r = tail then some r else none)
      (sign ++ name ++ tail)) ≠ none := by
    apply Pattern.then?_ne_none _ _ _ _ hmid
    apply Pattern.then?_ne_none _ _ _ _ htail
    simp
  rw [ht] at hne
  cases hh : afterHeading? s (sign ++ name ++ tail) with
  | none =>
    rw [hh] at hne
    exact absurd rfl hne
  | some r =>
    rw [hh, Option.bind_some] at hne
    by_cases hr : r = tail
    · rw [hr]
    · exact absurd (if_neg hr) hne

theorem HeaderParts.afterHeading?_eq {s : Section}
    {text before sign name line ends rest : List Char}
    (h : HeaderParts s text before sign name line ends rest)
    (hfront : afterHeader? s text = some rest) :
    afterHeading? s text = some (line ++ ends ++ rest) := by
  rw [← head?_rests_header] at hfront
  obtain ⟨found, hfirst⟩ := (header s).firstMatch_of_head? text rest hfront
  obtain ⟨rfl, _, _⟩ := h.first.unique hfirst
  have hsplit : text = sign ++ name ++ (line ++ ends ++ rest) := by
    rw [h.first.split]
    simp only [List.nil_append, List.append_assoc]
  rw [hsplit]
  exact afterHeading?_of_matches s sign name _ h.sign_matches h.name_matches

/-- A header takes the rest of the line of its label and the line ends after it, and no more,
unless nothing but white space lies between the label and a colon on a later line that has an end:
then it takes that line and its line ends, too. -/
theorem findHeader?_takes_label_line (s : Section) (text rest : List Char)
    (h : findHeader? s text = some rest) :
    ∃ before sign name line ends, HeaderParts s text before sign name line ends rest ∧
      (¬ ColonBelow (line ++ ends ++ rest) → '\n' ∉ line) ∧
      (ColonBelow (line ++ ends ++ rest) → ∃ blank more, line = blank ++ ':' :: more ∧
        Blank blank ∧ '\n' ∈ blank ∧ '\n' ∉ more) := by
  obtain ⟨before, found, hfirst⟩ := (findHeader?_eq_some_iff s text rest).mp h
  have hheader := hfirst.preferred
  rw [head?_rests_header, afterHeader?, Option.bind_eq_some_iff] at hheader
  obtain ⟨tail, hheading, hends⟩ := hheader
  obtain ⟨sign, name, hsplit, hsign, hname⟩ := exists_heading s _ tail hheading
  have hparts : ∀ line ends, tail = line ++ ends ++ rest → LineEnds ends rest →
      HeaderParts s text before sign name line ends rest := by
    rintro line ends rfl hl
    have hfound : found ++ rest = sign ++ name ++ line ++ ends ++ rest := by
      rw [hsplit]
      simp only [List.append_assoc]
    rw [List.append_cancel_right hfound] at hfirst
    exact ⟨hfirst, hsign, hname, hl⟩
  obtain ⟨hno, line, ends, ht, hline, hl⟩ | ⟨blank, more, ends, ht, hb, hn, hm, hl⟩ :=
    exists_line tail rest hends
  · exact ⟨before, sign, name, line, ends, hparts line ends ht hl, fun _ => hline,
      fun hc => absurd (ht ▸ hc) hno⟩
  · refine ⟨before, sign, name, blank ++ ':' :: more, ends, hparts _ ends ht hl, ?_,
      fun _ => ⟨blank, more, rfl, hb, hn, hm⟩⟩
    intro hno
    obtain ⟨more', rfl⟩ := hl.eq_cons
    exact absurd ⟨blank, more ++ '\n' :: more' ++ rest, by simp, hb, hn, by simp⟩ hno

theorem findHeader?_takes_label_line_last :
    findHeader? .description "# Description\n\n: last".toList = some ": last".toList ∧
      ∃ before sign name line ends,
        HeaderParts .description "# Description\n\n: last".toList before sign name line ends
          ": last".toList ∧ '\n' ∉ line := by
  have hf : findHeader? .description "# Description\n\n: last".toList = some ": last".toList := by
    decide
  obtain ⟨before, sign, name, line, ends, hp, hline, _⟩ :=
    findHeader?_takes_label_line .description _ _ hf
  refine ⟨hf, before, sign, name, line, ends, hp, hline ?_⟩
  have htail := hp.afterHeading?_eq (by decide)
  have hd : afterHeading? .description "# Description\n\n: last".toList =
      some (['\n', '\n'] ++ ':' :: " last".toList) := by decide
  rw [← Option.some.inj (hd.symm.trans htail), colonBelow_iff _ _ (by decide)]
  decide

/-- A line below the label that begins with a colon is lost from the body, so not every header ends
with the line of its label. -/
theorem header_swallows_colon_line :
    body? .description "## Description\n: colon line\nbody" = some "body" ∧
      ¬ ∀ (s : Section) (text rest : List Char), findHeader? s text = some rest →
        ∃ before sign name line ends, HeaderParts s text before sign name line ends rest ∧
          '\n' ∉ line := by
  refine ⟨by decide, ?_⟩
  intro h
  obtain ⟨before, sign, name, line, ends, hp, hline⟩ :=
    h .description "## Description\n: colon line\nbody".toList "body".toList (by decide)
  have htail := hp.afterHeading?_eq (by decide)
  have hd : afterHeading? .description "## Description\n: colon line\nbody".toList =
      some "\n: colon line\nbody".toList := by decide
  have hrest := afterLine?_append line ends _ hline hp.line_ends
  rw [← Option.some.inj (hd.symm.trans htail)] at hrest
  exact absurd hrest (by decide)

end CodeAtlas.Documentation
