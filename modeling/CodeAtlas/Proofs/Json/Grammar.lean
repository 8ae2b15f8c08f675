import CodeAtlas.Proofs.Json.Number

namespace CodeAtlas.Json

def Digits (run : List Char) : Prop :=
  run ≠ [] ∧ ∀ c ∈ run, c.isDigit = true

inductive Fraction : List Char → Prop where
  | missing : Fraction []
  | digits {run : List Char} (h : Digits run) : Fraction ('.' :: run)

inductive Exponent : List Char → Prop where
  | missing : Exponent []
  | digits {e : Char} {sign run : List Char} (he : e = 'e' ∨ e = 'E')
      (hs : sign = [] ∨ sign = ['+'] ∨ sign = ['-']) (h : Digits run) :
      Exponent (e :: (sign ++ run))

inductive NumberText : List Char → Prop where
  | parts {sign whole fraction exponent : List Char} (hs : sign = [] ∨ sign = ['-'])
      (hw : Digits whole) (hz : ∀ c run, whole ≠ '0' :: c :: run) (hf : Fraction fraction)
      (he : Exponent exponent) : NumberText (sign ++ (whole ++ (fraction ++ exponent)))

theorem Digits.exists_cons (run : List Char) (h : Digits run) :
    ∃ c cs, run = c :: cs ∧ c.isDigit = true := by
  cases run with
  | nil => exact absurd rfl h.1
  | cons c cs => exact ⟨c, cs, rfl, h.2 c List.mem_cons_self⟩

theorem digits_append (short : ReadError) (run : List Char) (h : Digits run) (rest : List Char)
    (hr : ∀ c, rest.head? = some c → c.isDigit = false) :
    digits short (run ++ rest) = .ok (run, rest) :=
  digits_of_run short run rest h.1 h.2 hr

theorem signedExponent_append (short : ReadError) (sign run : List Char)
    (hs : sign = [] ∨ sign = ['+'] ∨ sign = ['-']) (h : Digits run) (rest : List Char)
    (hr : ∀ c, rest.head? = some c → c.isDigit = false) :
    ∃ e, signedExponent short (sign ++ run ++ rest) = .ok (e, rest) := by
  have hd := digits_append short run h rest hr
  rcases hs with rfl | rfl | rfl
  · obtain ⟨c, cs, rfl, hc⟩ := h.exists_cons
    refine ⟨natOfDigits (c :: cs), ?_⟩
    rw [List.nil_append, List.cons_append, signedExponent]
    · rw [← List.cons_append, hd, ok_bind]
    · rintro _ he
      rw [(List.cons.inj he).1] at hc
      exact absurd hc (by decide)
    · rintro _ he
      rw [(List.cons.inj he).1] at hc
      exact absurd hc (by decide)
  · refine ⟨natOfDigits run, ?_⟩
    rw [List.append_assoc, List.singleton_append, signedExponent, hd, ok_bind]
  · refine ⟨-natOfDigits run, ?_⟩
    rw [List.append_assoc, List.singleton_append, signedExponent, hd, ok_bind]

theorem Exponent.append (short : ReadError) (text : List Char) (h : Exponent text)
    (rest : List Char) (hr : Stops rest) :
    ∃ e, exponent short (text ++ rest) = .ok (e, rest) := by
  cases h with
  | missing =>
    refine ⟨none, ?_⟩
    cases rest with
    | nil => rfl
    | cons c rest =>
      have hc := (hr.not_in_number c rest).2.2
      rw [List.nil_append, exponent, if_neg (not_or.mpr hc)]
  | @digits e sign run he hs hd =>
    have hrest : ∀ c, rest.head? = some c → c.isDigit = false :=
      Stops.head_append _ (fun c cs hc => (hc.not_in_number c cs).1) [] rest (by simp) hr
    obtain ⟨n, hn⟩ := signedExponent_append short sign run hs hd rest hrest
    refine ⟨some n, ?_⟩
    rw [List.cons_append, exponent, if_pos he, hn, ok_bind]

theorem Exponent.head (text : List Char) (h : Exponent text) (rest : List Char) (hr : Stops rest)
    (c : Char) (hc : (text ++ rest).head? = some c) : c.isDigit = false ∧ c ≠ '.' := by
  cases h with
  | missing =>
    obtain ⟨tail, rfl⟩ := List.head?_eq_some_iff.mp hc
    have hn := hr.not_in_number c tail
    exact ⟨hn.1, hn.2.1⟩
  | digits he _ _ =>
    cases hc
    rcases he with rfl | rfl <;> decide

theorem Fraction.append (short : ReadError) (text : List Char) (h : Fraction text)
    (rest : List Char) (hr : ∀ c, rest.head? = some c → c.isDigit = false ∧ c ≠ '.') :
    ∃ f, fractionDigits short (text ++ rest) = .ok (f, rest) := by
  cases h with
  | missing =>
    refine ⟨none, ?_⟩
    rw [List.nil_append, fractionDigits]
    rintro tail rfl
    exact (hr '.' rfl).2 rfl
  | @digits run hd =>
    refine ⟨some run, ?_⟩
    rw [List.cons_append, fractionDigits, digits_append short run hd rest fun c hc => (hr c hc).1,
      ok_bind]

theorem Fraction.head (text : List Char) (h : Fraction text) (rest : List Char)
    (hr : ∀ c, rest.head? = some c → c.isDigit = false ∧ c ≠ '.') (c : Char)
    (hc : (text ++ rest).head? = some c) : c.isDigit = false := by
  cases h with
  | missing => exact (hr c hc).1
  | digits _ =>
    cases hc
    decide

theorem unsigned_append (short : ReadError) (negative : Bool) (whole fraction expo : List Char)
    (hw : Digits whole) (hz : ∀ c run, whole ≠ '0' :: c :: run) (hf : Fraction fraction)
    (he : Exponent expo) (rest : List Char) (hr : Stops rest) :
    ∃ n, unsigned short negative (whole ++ (fraction ++ (expo ++ rest))) = .ok (n, rest) := by
  have hafter := he.head expo rest hr
  have hd := digits_append short whole hw _ (hf.head fraction _ hafter)
  obtain ⟨f, hf⟩ := hf.append short fraction _ hafter
  obtain ⟨e, he⟩ := he.append short expo rest hr
  refine ⟨⟨negative, whole, f, e⟩, ?_⟩
  rw [unsigned, (wholeDigits_eq_ok_iff _ _ _ _).mpr ⟨hd, hz⟩, ok_bind]
  simp only [hf, ok_bind, he]

theorem NumberText.append (short : ReadError) (text : List Char) (h : NumberText text)
    (rest : List Char) (hr : Stops rest) : ∃ n, numeral short (text ++ rest) = .ok (n, rest) := by
  cases h with
  | @parts sign whole fraction expo hs hw hz hf he =>
    simp only [List.append_assoc]
    rcases hs with rfl | rfl
    · obtain ⟨c, cs, rfl, hc⟩ := hw.exists_cons
      obtain ⟨n, hn⟩ := unsigned_append short false _ _ _ hw hz hf he rest hr
      refine ⟨n, ?_⟩
      rw [List.nil_append, List.cons_append, numeral]
      · exact hn
      · rintro _ hminus
        rw [(List.cons.inj hminus).1] at hc
        exact absurd hc (by decide)
    · obtain ⟨n, hn⟩ := unsigned_append short true _ _ _ hw hz hf he rest hr
      refine ⟨n, ?_⟩
      rw [List.singleton_append, numeral, hn]

theorem NumberText.exists_cons (text : List Char) (h : NumberText text) :
    ∃ c cs, text = c :: cs ∧ startsNumber c = true := by
  cases h with
  | parts hs hw _ _ _ =>
    rcases hs with rfl | rfl
    · obtain ⟨c, cs, rfl, hc⟩ := hw.exists_cons
      exact ⟨c, _, rfl, by simp [startsNumber, hc]⟩
    · exact ⟨'-', _, rfl, rfl⟩

/-- A piece of a string. The number of a character may also be half of a surrogate pair. -/
inductive Piece : List Char → Prop where
  | plain {c : Char} (hq : c ≠ '"') (hb : c ≠ '\\') (h : 32 ≤ c.toNat) : Piece [c]
  | short {c d : Char} (h : (d, c) ∈ shortEscapes) : Piece ['\\', d]
  | word {text : List Char} {n : Nat} (h : HexWord text n) : Piece ('\\' :: 'u' :: text)

inductive StringText : List Char → Prop where
  | pieces {pieces : List (List Char)} (h : ∀ p ∈ pieces, Piece p) :
      StringText ('"' :: (pieces.flatten ++ ['"']))

variable (unicode : Reader Char)

theorem Piece.round (piece : List Char) (h : Piece piece)
    (hu : ∀ text n, HexWord text n → ∃ c, ∀ rest, unicode (text ++ rest) = .ok (c, rest)) :
    piece ≠ [] ∧ ∀ read, ∃ c, ∀ rest,
      quotedRound unicode read (piece ++ rest) = .ok (.more (c :: read), rest) := by
  cases h with
  | @plain c hq hb h =>
    exact ⟨List.cons_ne_nil _ _, fun read => ⟨c, quotedRound_plain unicode read c hq hb h⟩⟩
  | @short c d h =>
    exact ⟨List.cons_ne_nil _ _, fun read => ⟨c, quotedRound_short unicode read c d h⟩⟩
  | @word text n h =>
    obtain ⟨c, hc⟩ := hu text n h
    exact ⟨List.cons_ne_nil _ _, fun read => ⟨c, fun rest =>
      quotedRound_unicode unicode read c _ rest (hc rest)⟩⟩

theorem runs_pieces (pieces : List (List Char)) (h : ∀ p ∈ pieces, Piece p)
    (hu : ∀ text n, HexWord text n → ∃ c, ∀ rest, unicode (text ++ rest) = .ok (c, rest))
    (read : List Char) :
    ∃ s, ∀ rest, Runs (quotedRound unicode) read (pieces.flatten ++ '"' :: rest) s rest := by
  induction pieces generalizing read with
  | nil => exact ⟨String.ofList read.reverse, fun rest => .done (by simp [quotedRound])⟩
  | cons piece pieces ih =>
    rw [List.forall_mem_cons] at h
    obtain ⟨hne, hround⟩ := h.1.round unicode piece hu
    obtain ⟨c, hc⟩ := hround read
    obtain ⟨s, hs⟩ := ih h.2 (c :: read)
    refine ⟨s, fun rest => ?_⟩
    rw [List.flatten_cons, List.append_assoc]
    refine .more (hc _) ?_ (hs rest)
    have hlen := List.length_pos_iff.mpr hne
    simp only [List.length_append]
    omega

theorem StringText.looseQuoted (text : List Char) (h : StringText text) :
    ∃ inside s, text = '"' :: inside ∧
      ∀ rest, Json.looseQuoted (inside ++ rest) = .ok (s, rest) := by
  cases h with
  | @pieces pieces hp =>
    have hu : ∀ text n, HexWord text n →
        ∃ c, ∀ rest, (hexWord (text ++ rest) >>= fun r => .ok ('?', r.2)) = .ok (c, rest) := by
      intro text n hw
      refine ⟨'?', fun rest => ?_⟩
      rw [hexWord_append text n hw, ok_bind]
    obtain ⟨s, hs⟩ := runs_pieces (fun cs => hexWord cs >>= fun r => .ok ('?', r.2)) pieces hp hu []
    refine ⟨_, s, rfl, fun rest => ?_⟩
    rw [List.append_assoc]
    exact loop_of_runs _ _ _ _ _ (hs rest)

inductive Heading : List Char → Prop where
  | key {k b b' : List Char} (hk : StringText k) (hb : Blank b) (hb' : Blank b') :
      Heading (k ++ (b ++ ':' :: b'))

inductive ValueText : List Char → Prop where
  | word {text : List Char}
      (h : text ∈ [['n', 'u', 'l', 'l'], ['t', 'r', 'u', 'e'], ['f', 'a', 'l', 's', 'e']]) :
      ValueText text
  | number {text : List Char} (h : NumberText text) : ValueText text
  | string {text : List Char} (h : StringText text) : ValueText text
  | array {parts : List (List Char)} {text : List Char} (h : ∀ part ∈ parts, ValueText part)
      (ht : Enclosed ']' true parts text) : ValueText ('[' :: text)
  | object {members : List (List Char × List Char)} {text : List Char}
      (hk : ∀ m ∈ members, Heading m.1) (h : ∀ m ∈ members, ValueText m.2)
      (ht : Enclosed '}' true (members.map fun m => m.1 ++ m.2) text) : ValueText ('{' :: text)

theorem ValueText.starts (text : List Char) (h : ValueText text) :
    ∃ c cs, text = c :: cs ∧ isBlank c = false ∧ c ≠ ']' := by
  cases h with
  | word h =>
    simp only [List.mem_cons, List.not_mem_nil, or_false] at h
    rcases h with rfl | rfl | rfl
    all_goals exact ⟨_, _, rfl, rfl, by decide⟩
  | number h =>
    obtain ⟨c, cs, rfl, hc⟩ := h.exists_cons
    refine ⟨c, cs, rfl, isBlank_of_startsNumber c hc, ?_⟩
    rintro rfl
    exact absurd hc (by decide)
  | string h =>
    cases h with
    | pieces => exact ⟨'"', _, rfl, rfl, by decide⟩
  | array => exact ⟨'[', _, rfl, rfl, by decide⟩
  | object => exact ⟨'{', _, rfl, rfl, by decide⟩

theorem Heading.starts (head : List Char) (h : Heading head) : ∃ cs, head = '"' :: cs := by
  cases h with
  | key hk _ _ =>
    cases hk with
    | pieces => exact ⟨_, rfl⟩

/-- Skipping gets over this text: from where a value is due it comes to where one has ended,
whatever brackets are open around it. -/
def Skips (text : List Char) : Prop :=
  ∀ outer b rest final, Blank b → Stops rest → Runs skipRound (.ended outer) rest () final →
    Runs skipRound (.due outer) (b ++ (text ++ rest)) () final

theorem skips_of_round (text : List Char) (hne : text ≠ [])
    (h : ∀ outer b rest, Blank b → Stops rest →
      skipRound (.due outer) (b ++ (text ++ rest)) = .ok (.more (.ended outer), rest)) :
    Skips text := by
  intro outer b rest final hb hs hr
  refine .more (h outer b rest hb hs) ?_ hr
  have hlen := List.length_pos_iff.mpr hne
  simp only [List.length_append]
  omega

theorem skips_number (text : List Char) (h : NumberText text) : Skips text := by
  obtain ⟨c, cs, rfl, hc⟩ := h.exists_cons
  refine skips_of_round _ (List.cons_ne_nil c cs) ?_
  intro outer b rest hb hs
  obtain ⟨n, hn⟩ := h.append .malformed _ rest hs
  rw [List.cons_append] at hn
  rw [skipRound, List.cons_append, skipBlank_to b c _ hb (isBlank_of_startsNumber c hc)]
  split
  case h_1 he => cases he
  case h_8 he =>
    cases he
    simp only [hc, if_true, hn, ok_bind]
  all_goals
    next he =>
      cases he
      exact absurd hc (by decide)

theorem skips_string (text : List Char) (h : StringText text) : Skips text := by
  obtain ⟨inside, s, rfl, hq⟩ := h.looseQuoted
  refine skips_of_round _ (List.cons_ne_nil '"' inside) ?_
  intro outer b rest hb _
  rw [skipRound, List.cons_append, skipBlank_to b '"' _ hb rfl]
  simp only [hq, ok_bind]

def Bracket.opening : Bracket → Char
  | .square => '['
  | .curly => '{'

def Bracket.closing : Bracket → Char
  | .square => ']'
  | .curly => '}'

def Bracket.Before : Bracket → List Char → Prop
  | .square, head => head = []
  | .curly, head => Heading head

theorem skippedKey_heading (head b : List Char) (h : Heading head) (hb : Blank b) :
    ∃ b', Blank b' ∧ b'.length ≤ (b ++ head).length ∧
      ∀ rest, skippedKey (b ++ (head ++ rest)) = .ok ((), b' ++ rest) := by
  cases h with
  | @key k b₁ b₂ hk hb₁ hb₂ =>
    obtain ⟨inside, s, rfl, hq⟩ := hk.looseQuoted
    refine ⟨b₂, hb₂, ?_, fun rest => ?_⟩
    · simp only [List.length_append, List.length_cons]
      omega
    · simp only [List.append_assoc, List.cons_append]
      rw [skippedKey, skipBlank_to b '"' _ hb rfl]
      simp only [hq, ok_bind]
      exact colon_blank b₁ _ hb₁

theorem skipRound_close (kind : Bracket) (outer : List Bracket) (b rest : List Char)
    (hb : Blank b) :
    skipRound (.ended (kind :: outer)) (b ++ kind.closing :: rest) =
      .ok (.more (.ended outer), rest) := by
  cases kind with
  | square =>
    rw [skipRound, Bracket.closing, skipBlank_to b ']' _ hb rfl]
    rfl
  | curly =>
    rw [skipRound, Bracket.closing, skipBlank_to b '}' _ hb rfl]
    rfl

theorem skipRound_comma (kind : Bracket) (head b b' : List Char) (hk : kind.Before head)
    (hb : Blank b) (hb' : Blank b') (outer : List Bracket) :
    ∃ lead, Blank lead ∧ lead.length ≤ (b' ++ head).length ∧ ∀ rest,
      skipRound (.ended (kind :: outer)) (b ++ ',' :: (b' ++ (head ++ rest))) =
        .ok (.more (.due (kind :: outer)), lead ++ rest) := by
  cases kind with
  | square =>
    cases hk
    refine ⟨b', hb', by simp, fun rest => ?_⟩
    rw [skipRound, skipBlank_to b ',' _ hb rfl]
    rfl
  | curly =>
    obtain ⟨lead, hlead, hlen, hkey⟩ := skippedKey_heading head b' hk hb'
    refine ⟨lead, hlead, hlen, fun rest => ?_⟩
    rw [skipRound, skipBlank_to b ',' _ hb rfl]
    simp only [hkey, ok_bind]

theorem skipRound_empty (kind : Bracket) (outer : List Bracket) (b b' rest : List Char)
    (hb : Blank b) (hb' : Blank b') :
    skipRound (.due outer) (b ++ kind.opening :: (b' ++ kind.closing :: rest)) =
      .ok (.more (.ended outer), rest) := by
  cases kind with
  | square =>
    rw [skipRound, Bracket.opening, Bracket.closing, skipBlank_to b '[' _ hb rfl]
    simp only [skipBlank_to b' ']' _ hb' rfl]
  | curly =>
    rw [skipRound, Bracket.opening, Bracket.closing, skipBlank_to b '{' _ hb rfl]
    simp only [skipBlank_to b' '}' _ hb' rfl]

/-- The first part of an array is told from its end by how a value starts, that of an object by its
key. -/
theorem skipRound_open (kind : Bracket) (head value b b' : List Char) (hk : kind.Before head)
    (hv : ValueText value) (hb : Blank b) (hb' : Blank b') (outer : List Bracket) :
    ∃ lead, Blank lead ∧ lead.length ≤ (b' ++ head).length ∧ ∀ rest,
      skipRound (.due outer) (b ++ kind.opening :: (b' ++ (head ++ (value ++ rest)))) =
        .ok (.more (.due (kind :: outer)), lead ++ (value ++ rest)) := by
  cases kind with
  | square =>
    cases hk
    obtain ⟨c, cs, rfl, hc, hne⟩ := hv.starts
    refine ⟨[], blank_nil, Nat.zero_le _, fun rest => ?_⟩
    rw [skipRound, Bracket.opening, skipBlank_to b '[' _ hb rfl]
    simp only [List.nil_append, List.cons_append, skipBlank_to b' c _ hb' hc]
    split
    · next he => cases he
    · next he => exact absurd (List.cons.inj he).1 hne
    · rfl
  | curly =>
    obtain ⟨lead, hlead, hlen, hkey⟩ := skippedKey_heading head [] hk blank_nil
    obtain ⟨cs, rfl⟩ := Heading.starts head hk
    refine ⟨lead, hlead, ?_, fun rest => ?_⟩
    · simp only [List.length_append, List.length_nil] at hlen ⊢
      omega
    · have hread := hkey (value ++ rest)
      rw [List.nil_append, List.cons_append] at hread
      rw [skipRound, Bracket.opening, skipBlank_to b '{' _ hb rfl]
      simp only [List.cons_append, skipBlank_to b' '"' _ hb' rfl]
      split
      · next he => cases he
      · next he => exact absurd (List.cons.inj he).1 (by decide)
      · rw [hread, ok_bind]

theorem Bracket.closing_cases (kind : Bracket) : kind.closing = ']' ∨ kind.closing = '}' := by
  cases kind with
  | square => exact Or.inl rfl
  | curly => exact Or.inr rfl

theorem runs_parts (kind : Bracket) (parts : List (List Char × List Char))
    (hk : ∀ p ∈ parts, kind.Before p.1) (h : ∀ p ∈ parts, Skips p.2) (text : List Char)
    (ht : Enclosed kind.closing false (parts.map fun p => p.1 ++ p.2) text)
    (outer : List Bracket) (rest final : List Char)
    (hr : Runs skipRound (.ended outer) rest () final) :
    Runs skipRound (.ended (kind :: outer)) (text ++ rest) () final := by
  induction parts generalizing text with
  | nil =>
    cases ht with
    | @close _ b hb =>
      rw [List.append_assoc, List.singleton_append]
      refine .more (skipRound_close kind outer b rest hb) ?_ hr
      simp only [List.length_append, List.length_cons]
      omega
  | cons p parts ih =>
    rw [List.forall_mem_cons] at h hk
    cases ht with
    | @part _ _ _ text _ hl hf =>
      cases hl with
      | @comma b b' hb hb' =>
        obtain ⟨lead, hlead, hlen, hround⟩ := skipRound_comma kind p.1 b b' hk.1 hb hb' outer
        have hs := hf.stops _ _ _ kind.closing_cases rest
        have hnext := h.1 (kind :: outer) lead _ final hlead hs (ih hk.2 h.2 text hf)
        simp only [List.append_assoc, List.cons_append]
        refine .more (hround _) ?_ hnext
        simp only [List.length_append, List.length_cons] at hlen ⊢
        omega

theorem skips_enclosed (kind : Bracket) (parts : List (List Char × List Char))
    (hk : ∀ p ∈ parts, kind.Before p.1) (hv : ∀ p ∈ parts, ValueText p.2)
    (h : ∀ p ∈ parts, Skips p.2) (text : List Char)
    (ht : Enclosed kind.closing true (parts.map fun p => p.1 ++ p.2) text) :
    Skips (kind.opening :: text) := by
  cases parts with
  | nil =>
    cases ht with
    | @close _ b' hb' =>
      refine skips_of_round _ (List.cons_ne_nil _ _) ?_
      intro outer b rest hb _
      rw [List.cons_append, List.append_assoc, List.singleton_append]
      exact skipRound_empty kind outer b b' rest hb hb'
  | cons p parts =>
    rw [List.forall_mem_cons] at h hk hv
    cases ht with
    | @part _ lead' _ text _ hl hf =>
      cases hl with
      | first hb' =>
        intro outer b rest final hb _ hr
        obtain ⟨lead, hlead, hlen, hround⟩ :=
          skipRound_open kind p.1 p.2 b lead' hk.1 hv.1 hb hb' outer
        have hs := hf.stops _ _ _ kind.closing_cases rest
        have hnext := h.1 (kind :: outer) lead _ final hlead hs
          (runs_parts kind parts hk.2 h.2 text hf outer rest final hr)
        simp only [List.append_assoc, List.cons_append]
        refine .more (hround _) ?_ hnext
        simp only [List.length_append, List.length_cons] at hlen ⊢
        omega

/-- Every JSON text can be skipped. -/
theorem skips_value (text : List Char) (h : ValueText text) : Skips text := by
  induction h with
  | word h =>
    simp only [List.mem_cons, List.not_mem_nil, or_false] at h
    rcases h with rfl | rfl | rfl
    all_goals
      refine skips_of_round _ (List.cons_ne_nil _ _) ?_
      intro outer b rest hb _
      simp only [List.cons_append, List.nil_append]
      rw [skipRound, skipBlank_to b _ _ hb rfl]
      rfl
  | number h => exact skips_number _ h
  | string h => exact skips_string _ h
  | @array parts text hv ht ih =>
    refine skips_enclosed .square (parts.map fun part => ([], part))
      (List.forall_mem_map.mpr fun _ _ => rfl) (List.forall_mem_map.mpr hv)
      (List.forall_mem_map.mpr ih) text ?_
    simpa [Function.comp_def, Bracket.closing] using ht
  | object hk hv ht ih => exact skips_enclosed .curly _ hk hv ih _ ht

theorem reads_skipped (text : List Char) (h : ValueText text) : Reads skipValue text () where
  starts := h.starts
  result b rest hb hs :=
    loop_of_runs _ _ _ _ _ (skips_value text h [] b rest rest hb hs (.done rfl))

end CodeAtlas.Json
