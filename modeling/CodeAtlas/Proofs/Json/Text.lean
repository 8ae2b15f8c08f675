import Mathlib.Data.List.Forall2
import CodeAtlas.Json.Value
import CodeAtlas.Json.Record

namespace CodeAtlas.Json

variable {σ α β : Type}

theorem ok_bind (a : α) (f : α → Except ReadError β) : (Except.ok a >>= f) = f a := rfl

/-- A loop that ends, round by round. Every round but the last makes the text shorter. -/
inductive Runs (step : σ → Reader (Round σ α)) : σ → List Char → α → List Char → Prop where
  | done {s : σ} {cs rest : List Char} {a : α} (h : step s cs = .ok (.done a, rest)) :
      Runs step s cs a rest
  | more {s s' : σ} {cs cs' rest : List Char} {a : α} (h : step s cs = .ok (.more s', cs'))
      (hlt : cs'.length < cs.length) (hr : Runs step s' cs' a rest) : Runs step s cs a rest

theorem rounds_of_runs (step : σ → Reader (Round σ α)) (s : σ) (cs rest : List Char) (a : α)
    (h : Runs step s cs a rest) (fuel : List Char) (hf : cs.length ≤ fuel.length) :
    rounds step fuel s cs = .ok (a, rest) := by
  -- the fuel is no shorter than the text, and every further round shortens both
  induction h generalizing fuel with
  | done h => rw [rounds, h]
  | more h hlt _ ih =>
    cases fuel with
    | nil => simp only [List.length_nil] at hf; omega
    | cons c fuel =>
      rw [rounds, h]
      exact ih fuel (by simp only [List.length_cons] at hf; omega)

theorem loop_of_runs (step : σ → Reader (Round σ α)) (s : σ) (cs rest : List Char) (a : α)
    (h : Runs step s cs a rest) : loop step s cs = .ok (a, rest) :=
  rounds_of_runs step s cs rest a h cs (Nat.le_refl _)

def Blank (b : List Char) : Prop :=
  ∀ c ∈ b, isBlank c = true

theorem blank_nil : Blank [] := fun _ h => absurd h List.not_mem_nil

theorem skipBlank_append (b t : List Char) (hb : Blank b) : skipBlank (b ++ t) = skipBlank t :=
  List.dropWhile_append_of_pos hb

theorem skipBlank_cons (c : Char) (cs : List Char) (hc : isBlank c = false) :
    skipBlank (c :: cs) = c :: cs := by
  rw [skipBlank, List.dropWhile_cons, hc]
  rfl

theorem skipBlank_to (b : List Char) (c : Char) (cs : List Char) (hb : Blank b)
    (hc : isBlank c = false) : skipBlank (b ++ c :: cs) = c :: cs := by
  rw [skipBlank_append b _ hb, skipBlank_cons c cs hc]

def HexDigit (c : Char) (n : Nat) : Prop :=
  ['0', '1', '2', '3', '4', '5', '6', '7', '8', '9', 'a', 'b', 'c', 'd', 'e', 'f'][n]? = some c ∨
    ['0', '1', '2', '3', '4', '5', '6', '7', '8', '9', 'A', 'B', 'C', 'D', 'E', 'F'][n]? = some c

inductive HexWord : List Char → Nat → Prop where
  | digits {a b c d : Char} {i j k l : Nat} (ha : HexDigit a i) (hb : HexDigit b j)
      (hc : HexDigit c k) (hd : HexDigit d l) :
      HexWord [a, b, c, d] (((i * 16 + j) * 16 + k) * 16 + l)

def shortEscapes : List (Char × Char) :=
  [('"', '"'), ('\\', '\\'), ('/', '/'), ('b', '\x08'), ('f', '\x0c'), ('n', '\n'), ('r', '\r'),
    ('t', '\t')]

/-- The ways to write a character of a string: as itself, by a letter after a backslash, by its
number, or by the numbers of a surrogate pair. -/
inductive Spells : Char → List Char → Prop where
  | plain {c : Char} (hq : c ≠ '"') (hb : c ≠ '\\') (h : 32 ≤ c.toNat) : Spells c [c]
  | short {c d : Char} (h : (d, c) ∈ shortEscapes) : Spells c ['\\', d]
  | word {c : Char} {text : List Char} (h : HexWord text c.toNat) : Spells c ('\\' :: 'u' :: text)
  | pair {c : Char} {high low : List Char} {i j : Nat} (hh : HexWord high i) (hl : HexWord low j)
      (hi : 0xD800 ≤ i ∧ i < 0xDC00) (hj : 0xDC00 ≤ j ∧ j < 0xE000)
      (hc : c.toNat = 0x10000 + (i - 0xD800) * 0x400 + (j - 0xDC00)) :
      Spells c ('\\' :: 'u' :: (high ++ '\\' :: 'u' :: low))

def Spelled (s : String) (text : List Char) : Prop :=
  ∃ pieces, List.Forall₂ Spells s.toList pieces ∧ text = '"' :: (pieces.flatten ++ ['"'])

theorem hexValue?_of_hexDigit (c : Char) (n : Nat) (h : HexDigit c n) : hexValue? c = some n := by
  rcases h with h | h
  all_goals
    obtain ⟨hn, rfl⟩ := List.getElem?_eq_some_iff.mp h
    clear h
    decide +revert

theorem hexWord_append (text : List Char) (n : Nat) (h : HexWord text n) (rest : List Char) :
    hexWord (text ++ rest) = .ok (n, rest) := by
  cases h with
  | digits ha hb hc hd =>
    simp only [List.cons_append, List.nil_append, hexWord, hexValue?_of_hexDigit _ _ ha,
      hexValue?_of_hexDigit _ _ hb, hexValue?_of_hexDigit _ _ hc, hexValue?_of_hexDigit _ _ hd]

/-- The number of a character is no half of a surrogate pair. -/
theorem not_surrogate (c : Char) :
    isLowSurrogate c.toNat = false ∧ isHighSurrogate c.toNat = false := by
  have h : c.toNat < 0xD800 ∨ 0xDFFF < c.toNat ∧ c.toNat < 0x110000 := c.valid
  constructor
  · simp [isLowSurrogate]
    omega
  · simp [isHighSurrogate]
    omega

theorem codePoint_word (c : Char) (text : List Char) (h : HexWord text c.toNat)
    (rest : List Char) : codePoint (text ++ rest) = .ok (c, rest) := by
  obtain ⟨hl, hh⟩ := not_surrogate c
  rw [codePoint, hexWord_append text _ h, ok_bind]
  simp only [hl, hh, Bool.false_eq_true, if_false, Char.ofNat_toNat]

theorem codePoint_pair (c : Char) (high low : List Char) (i j : Nat) (hh : HexWord high i)
    (hl : HexWord low j) (hi : 0xD800 ≤ i ∧ i < 0xDC00) (hj : 0xDC00 ≤ j ∧ j < 0xE000)
    (hc : c.toNat = 0x10000 + (i - 0xD800) * 0x400 + (j - 0xDC00)) (rest : List Char) :
    codePoint (high ++ '\\' :: 'u' :: (low ++ rest)) = .ok (c, rest) := by
  have hil : isLowSurrogate i = false := by
    simp [isLowSurrogate]
    omega
  have hih : isHighSurrogate i = true := by
    simp [isHighSurrogate]
    omega
  have hjl : isLowSurrogate j = true := by
    simp [isLowSurrogate]
    omega
  have hlow : lowSurrogate ('\\' :: 'u' :: (low ++ rest)) = .ok (j, rest) := by
    rw [lowSurrogate, hexWord_append low j hl, ok_bind]
    simp only [hjl, if_true]
  rw [codePoint, hexWord_append high i hh, ok_bind]
  simp only [hil, hih, Bool.false_eq_true, if_false, if_true, hlow, ok_bind, ← hc,
    Char.ofNat_toNat]

theorem quotedRound_plain (unicode : Reader Char) (read : List Char) (c : Char) (hq : c ≠ '"')
    (hb : c ≠ '\\') (h : 32 ≤ c.toNat) (rest : List Char) :
    quotedRound unicode read (c :: rest) = .ok (.more (c :: read), rest) := by
  rw [quotedRound]
  · rw [if_neg (by omega)]
  · exact hq
  · exact hb

theorem quotedRound_short (unicode : Reader Char) (read : List Char) (c d : Char)
    (h : (d, c) ∈ shortEscapes) (rest : List Char) :
    quotedRound unicode read ('\\' :: d :: rest) = .ok (.more (c :: read), rest) := by
  simp only [shortEscapes, List.mem_cons, List.not_mem_nil, or_false, Prod.mk.injEq] at h
  rcases h with ⟨rfl, rfl⟩ | ⟨rfl, rfl⟩ | ⟨rfl, rfl⟩ | ⟨rfl, rfl⟩ | ⟨rfl, rfl⟩ | ⟨rfl, rfl⟩ |
    ⟨rfl, rfl⟩ | ⟨rfl, rfl⟩
  all_goals rfl

theorem quotedRound_unicode (unicode : Reader Char) (read : List Char) (c : Char)
    (cs rest : List Char) (h : unicode cs = .ok (c, rest)) :
    quotedRound unicode read ('\\' :: 'u' :: cs) = .ok (.more (c :: read), rest) := by
  rw [quotedRound, escaped, h, ok_bind]

theorem quotedRound_spells (read : List Char) (c : Char) (piece : List Char)
    (h : Spells c piece) (rest : List Char) :
    quotedRound codePoint read (piece ++ rest) = .ok (.more (c :: read), rest) := by
  cases h with
  | plain hq hb h => exact quotedRound_plain _ read c hq hb h rest
  | short h => exact quotedRound_short _ read c _ h rest
  | word h => exact quotedRound_unicode _ read c _ rest (codePoint_word c _ h rest)
  | pair hh hl hi hj hc =>
    have hp := codePoint_pair c _ _ _ _ hh hl hi hj hc rest
    simp only [List.cons_append, List.append_assoc]
    exact quotedRound_unicode _ read c _ rest hp

theorem Spells.ne_nil (c : Char) (piece : List Char) (h : Spells c piece) : piece ≠ [] := by
  cases h with
  | plain | short | word | pair => exact List.cons_ne_nil _ _

theorem runs_quoted (cs : List Char) (pieces : List (List Char))
    (h : List.Forall₂ Spells cs pieces) (read rest : List Char) :
    Runs (quotedRound codePoint) read (pieces.flatten ++ '"' :: rest)
      (String.ofList (read.reverse ++ cs)) rest := by
  induction h generalizing read with
  | nil => exact .done (by simp [quotedRound])
  | @cons c piece cs pieces hp _ ih =>
    have hr := ih (c :: read)
    rw [List.reverse_cons, List.append_assoc, List.singleton_append] at hr
    rw [List.flatten_cons, List.append_assoc]
    refine .more (quotedRound_spells read c piece hp _) ?_ hr
    have hc := List.length_pos_iff.mpr (hp.ne_nil c piece)
    simp only [List.length_append]
    omega

theorem Spelled.quoted (s : String) (text : List Char) (h : Spelled s text) :
    ∃ inside, text = '"' :: inside ∧ ∀ rest, Json.quoted (inside ++ rest) = .ok (s, rest) := by
  obtain ⟨pieces, hp, rfl⟩ := h
  refine ⟨_, rfl, fun rest => ?_⟩
  have hr := loop_of_runs _ _ _ _ _ (runs_quoted s.toList pieces hp [] rest)
  rw [List.reverse_nil, List.nil_append, String.ofList_toList] at hr
  rw [List.append_assoc]
  exact hr

theorem hexDigit_digitChar (n : Nat) (h : n < 16) : HexDigit (Nat.digitChar n) n := by
  left
  decide +revert

theorem escape_cases (c : Char) :
    (∃ d, escape c = ['\\', d] ∧ (d, c) ∈ shortEscapes) ∨
      (∃ a n, a < 2 ∧ n < 16 ∧ c.toNat = a * 16 + n ∧
        escape c = ['\\', 'u', '0', '0', Nat.digitChar a, Nat.digitChar n]) ∨
      (escape c = [c] ∧ c ≠ '"' ∧ c ≠ '\\' ∧ ¬ c.toNat < 32) := by
  by_cases hs : c ∈ ['"', '\\', '\n', '\r', '\t', '\x08', '\x0c']
  · left
    simp only [List.mem_cons, List.not_mem_nil, or_false] at hs
    rcases hs with rfl | rfl | rfl | rfl | rfl | rfl | rfl
    all_goals exact ⟨_, rfl, by decide⟩
  · right
    simp only [List.mem_cons, List.not_mem_nil, or_false, not_or] at hs
    obtain ⟨hq, hb, hn, hr, ht, hbs, hff⟩ := hs
    simp only [escape, hq, hb, hn, hr, ht, hbs, hff, if_false]
    by_cases h16 : c.toNat < 16
    · rw [if_pos h16]
      exact Or.inl ⟨0, c.toNat, by omega, h16, by omega, rfl⟩
    rw [if_neg h16]
    by_cases h32 : c.toNat < 32
    · rw [if_pos h32]
      exact Or.inl ⟨1, c.toNat - 16, by omega, by omega, by omega, rfl⟩
    · rw [if_neg h32]
      exact Or.inr ⟨rfl, hq, hb, h32⟩

theorem spells_escape (c : Char) : Spells c (escape c) := by
  rcases escape_cases c with ⟨d, he, hd⟩ | ⟨a, n, ha, hn, hc, he⟩ | ⟨he, hq, hb, h32⟩
  · rw [he]
    exact .short hd
  · have hz : HexDigit '0' 0 := hexDigit_digitChar 0 (by decide)
    have hw := HexWord.digits hz hz (hexDigit_digitChar a (by omega)) (hexDigit_digitChar n hn)
    rw [he]
    refine .word ?_
    rw [hc]
    simpa using hw
  · rw [he]
    exact .plain hq hb (by omega)

theorem spelled_quote (s : String) : Spelled s (quote s) := by
  refine ⟨s.toList.map escape, ?_, ?_⟩
  · rw [List.forall₂_map_right_iff, List.forall₂_same]
    exact fun c _ => spells_escape c
  · rw [quote, List.flatMap_def]
    rfl

theorem quotedRound_escape (read : List Char) (c : Char) (rest : List Char) :
    quotedRound codePoint read (escape c ++ rest) = .ok (.more (c :: read), rest) :=
  quotedRound_spells read c _ (spells_escape c) rest

theorem quote_append (s : String) (rest : List Char) :
    quote s ++ rest = '"' :: (s.toList.flatMap escape ++ '"' :: rest) := by
  simp [quote]

theorem quoted_escaped (s : String) (rest : List Char) :
    quoted (s.toList.flatMap escape ++ '"' :: rest) = .ok (s, rest) := by
  obtain ⟨inside, he, hr⟩ := (spelled_quote s).quoted
  have h := quote_append s rest
  rw [he, List.cons_append] at h
  rw [← (List.cons.inj h).2]
  exact hr rest

end CodeAtlas.Json
