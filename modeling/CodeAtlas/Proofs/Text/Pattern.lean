import Mathlib.Data.List.TakeWhile

namespace CodeAtlas.Text

/-- What a text is searched for. Only classes of characters are repeated: `many` prefers the longest
run and `few` the shortest, and `either` prefers its first pattern. -/
inductive Pattern where
  | never
  | nothing
  | one (p : Char → Bool)
  | many (p : Char → Bool)
  | few (p : Char → Bool)
  | both (a b : Pattern)
  | either (a b : Pattern)

namespace Pattern

def maybe (a : Pattern) : Pattern := either a nothing

def inTurn (l : List Pattern) : Pattern := l.foldr both nothing

def anyOf (l : List Pattern) : Pattern := l.foldr either never

def upTo (p : Char → Bool) : Nat → Pattern
  | 0 => nothing
  | n + 1 => maybe (both (one p) (upTo p n))

def Matches : Pattern → List Char → Prop
  | never, _ => False
  | nothing, t => t = []
  | one p, t => ∃ c, t = [c] ∧ p c
  | many p, t => ∀ c ∈ t, p c
  | few p, t => ∀ c ∈ t, p c
  | both a b, t => ∃ u v, t = u ++ v ∧ a.Matches u ∧ b.Matches v
  | either a b, t => a.Matches t ∨ b.Matches t

/-- What is left of a text after a run of a class at its front, the longest run first. -/
def runs (p : Char → Bool) : List Char → List (List Char)
  | [] => [[]]
  | c :: cs => if p c then runs p cs ++ [c :: cs] else [c :: cs]

/-- What may be left of a text after a match at its front, in order of preference. -/
def rests : Pattern → List Char → List (List Char)
  | never, _ => []
  | nothing, cs => [cs]
  | one _, [] => []
  | one p, c :: cs => if p c then [cs] else []
  | many p, cs => runs p cs
  | few p, cs => (runs p cs).reverse
  | both a b, cs => (a.rests cs).flatMap b.rests
  | either a b, cs => a.rests cs ++ b.rests cs

def Occurs (p : Pattern) (text : List Char) : Prop :=
  ∃ before found rest, text = before ++ found ++ rest ∧ p.Matches found

/-- The match that a search comes to: no match begins further left, and of those that begin there
it is the preferred one. -/
structure FirstMatch (p : Pattern) (text before found rest : List Char) : Prop where
  split : text = before ++ found ++ rest
  leftmost : ∀ a u v, text = a ++ u ++ v → p.Matches u → before.length ≤ a.length
  preferred : (p.rests (found ++ rest)).head? = some rest

def Ends (p : Pattern) (text before : List Char) : Prop :=
  (∃ found rest, p.FirstMatch text before found rest) ∨ before = text ∧ ¬ p.Occurs text

def find? (p : Pattern) : List Char → Option (List Char × List Char)
  | [] => (p.rests []).head?.map ([], ·)
  | c :: cs =>
    match (p.rests (c :: cs)).head? with
    | some rest => some ([], rest)
    | none => (p.find? cs).map fun m => (c :: m.1, m.2)

theorem mem_runs_iff (p : Char → Bool) (cs rest : List Char) :
    rest ∈ runs p cs ↔ ∃ found, cs = found ++ rest ∧ ∀ c ∈ found, p c := by
  induction cs with
  | nil =>
    simp only [runs, List.mem_singleton, List.nil_eq, List.append_eq_nil_iff]
    constructor
    · rintro rfl
      exact ⟨[], ⟨rfl, rfl⟩, by simp⟩
    · rintro ⟨_, ⟨_, h⟩, _⟩
      exact h
  | cons c cs ih =>
    have hself : c :: cs = [] ++ (c :: cs) ∧ ∀ x ∈ ([] : List Char), p x := by simp
    rw [runs]
    by_cases hc : p c
    · rw [if_pos hc, List.mem_append, ih, List.mem_singleton]
      constructor
      · rintro (⟨found, rfl, hf⟩ | rfl)
        · exact ⟨c :: found, rfl, by simpa [hc] using hf⟩
        · exact ⟨[], hself⟩
      · rintro ⟨found, hs, hf⟩
        cases found with
        | nil => exact Or.inr hs.symm
        | cons d found =>
          obtain ⟨_, hcs⟩ := List.cons.inj hs
          exact Or.inl ⟨found, hcs, fun x hx => hf x (List.mem_cons_of_mem d hx)⟩
    · rw [if_neg hc, List.mem_singleton]
      constructor
      · rintro rfl
        exact ⟨[], hself⟩
      · rintro ⟨found, hs, hf⟩
        cases found with
        | nil => exact hs.symm
        | cons d found =>
          obtain ⟨rfl, _⟩ := List.cons.inj hs
          exact absurd (hf c List.mem_cons_self) hc

theorem mem_rests_iff (p : Pattern) (cs rest : List Char) :
    rest ∈ p.rests cs ↔ ∃ found, cs = found ++ rest ∧ p.Matches found := by
  induction p generalizing cs rest with
  | never => simp [rests, Matches]
  | nothing => simp [rests, Matches, eq_comm]
  | one p =>
    cases cs with
    | nil => simp [rests, Matches]
    | cons c cs =>
      rw [rests]
      constructor
      · intro h
        split at h
        · next hc =>
          rw [List.mem_singleton.mp h]
          exact ⟨[c], rfl, c, rfl, hc⟩
        · simp at h
      · rintro ⟨found, hs, d, rfl, hd⟩
        obtain ⟨rfl, rfl⟩ := List.cons.inj hs
        simp [hd]
  | many p => exact mem_runs_iff p cs rest
  | few p =>
    rw [rests, List.mem_reverse]
    exact mem_runs_iff p cs rest
  | both a b iha ihb =>
    simp only [rests, List.mem_flatMap, iha, ihb, Matches]
    constructor
    · rintro ⟨_, ⟨u, rfl, hu⟩, v, rfl, hv⟩
      exact ⟨u ++ v, (List.append_assoc u v rest).symm, u, v, rfl, hu, hv⟩
    · rintro ⟨_, rfl, u, v, rfl, hu, hv⟩
      exact ⟨v ++ rest, ⟨u, List.append_assoc u v rest, hu⟩, v, rfl, hv⟩
  | either a b iha ihb =>
    simp only [rests, List.mem_append, iha, ihb, Matches]
    constructor
    · rintro (⟨found, hs, hf⟩ | ⟨found, hs, hf⟩)
      · exact ⟨found, hs, Or.inl hf⟩
      · exact ⟨found, hs, Or.inr hf⟩
    · rintro ⟨found, hs, hf | hf⟩
      · exact Or.inl ⟨found, hs, hf⟩
      · exact Or.inr ⟨found, hs, hf⟩

theorem FirstMatch.matches_found {p : Pattern} {text before found rest : List Char}
    (h : p.FirstMatch text before found rest) : p.Matches found := by
  have hm := List.mem_of_mem_head? h.preferred
  obtain ⟨u, hs, hu⟩ := (p.mem_rests_iff _ rest).mp hm
  rwa [List.append_cancel_right hs]

theorem FirstMatch.occurs {p : Pattern} {text before found rest : List Char}
    (h : p.FirstMatch text before found rest) : p.Occurs text :=
  ⟨before, found, rest, h.split, h.matches_found⟩

theorem FirstMatch.unique {p : Pattern} {text b f r b' f' r' : List Char}
    (h : p.FirstMatch text b f r) (h' : p.FirstMatch text b' f' r') :
    b = b' ∧ f = f' ∧ r = r' := by
  have hle := h.leftmost b' f' r' h'.split h'.matches_found
  have hge := h'.leftmost b f r h.split h.matches_found
  have hs : b ++ (f ++ r) = b' ++ (f' ++ r') := by
    rw [← List.append_assoc, ← List.append_assoc, ← h.split, h'.split]
  obtain ⟨hb, hfr⟩ := List.append_inj hs (Nat.le_antisymm hle hge)
  have hr : r = r' := by
    have hp := h.preferred
    rw [hfr, h'.preferred] at hp
    exact (Option.some.inj hp).symm
  subst hr
  exact ⟨hb, List.append_cancel_right hfr, rfl⟩

theorem firstMatch_of_head? (p : Pattern) (cs rest : List Char)
    (h : (p.rests cs).head? = some rest) : ∃ found, p.FirstMatch cs [] found rest := by
  obtain ⟨found, hs, _⟩ := (p.mem_rests_iff cs rest).mp (List.mem_of_mem_head? h)
  exact ⟨found, hs, fun _ _ _ _ _ => Nat.zero_le _, hs ▸ h⟩

theorem FirstMatch.cons {p : Pattern} {cs before found rest : List Char} (c : Char)
    (h : p.FirstMatch cs before found rest) (hc : (p.rests (c :: cs)).head? = none) :
    p.FirstMatch (c :: cs) (c :: before) found rest := by
  refine ⟨by rw [h.split]; rfl, ?_, h.preferred⟩
  intro a u v hs hu
  cases a with
  | nil =>
    have hm := (p.mem_rests_iff (c :: cs) v).mpr ⟨u, hs, hu⟩
    rw [List.head?_eq_none_iff.mp hc] at hm
    exact absurd hm List.not_mem_nil
  | cons d a =>
    obtain ⟨_, hs⟩ := List.cons.inj hs
    exact Nat.succ_le_succ (h.leftmost a u v hs hu)

theorem firstMatch_of_find? (p : Pattern) (cs before rest : List Char)
    (h : p.find? cs = some (before, rest)) : ∃ found, p.FirstMatch cs before found rest := by
  induction cs generalizing before with
  | nil =>
    obtain ⟨r, hr, he⟩ := Option.map_eq_some_iff.mp h
    cases he
    exact p.firstMatch_of_head? [] rest hr
  | cons c cs ih =>
    rw [find?] at h
    split at h
    · next r hr =>
      cases h
      exact p.firstMatch_of_head? (c :: cs) rest hr
    · next hc =>
      obtain ⟨m, hm, he⟩ := Option.map_eq_some_iff.mp h
      cases he
      obtain ⟨found, hf⟩ := ih m.1 hm
      exact ⟨found, hf.cons c hc⟩

theorem not_occurs_of_find? (p : Pattern) (cs : List Char) (h : p.find? cs = none) :
    ¬ p.Occurs cs := by
  rintro ⟨before, found, rest, hs, hf⟩
  have hm := (p.mem_rests_iff (found ++ rest) rest).mpr ⟨found, rfl, hf⟩
  have hne : (p.rests (found ++ rest)).head? ≠ none := by
    intro hn
    rw [List.head?_eq_none_iff.mp hn] at hm
    exact List.not_mem_nil hm
  induction cs generalizing before with
  | nil =>
    obtain ⟨hbf, rfl⟩ := List.append_eq_nil_iff.mp hs.symm
    obtain ⟨rfl, rfl⟩ := List.append_eq_nil_iff.mp hbf
    exact hne (Option.map_eq_none_iff.mp h)
  | cons c cs ih =>
    rw [find?] at h
    split at h
    · cases h
    · next hc =>
      cases before with
      | nil => exact hne (hs ▸ hc)
      | cons d before =>
        obtain ⟨_, hs⟩ := List.cons.inj hs
        exact ih (Option.map_eq_none_iff.mp h) before hs

theorem find?_eq_some_iff (p : Pattern) (cs before rest : List Char) :
    p.find? cs = some (before, rest) ↔ ∃ found, p.FirstMatch cs before found rest := by
  refine ⟨p.firstMatch_of_find? cs before rest, ?_⟩
  rintro ⟨found, hf⟩
  cases hm : p.find? cs with
  | none => exact absurd hf.occurs (p.not_occurs_of_find? cs hm)
  | some m =>
    obtain ⟨found', hf'⟩ := p.firstMatch_of_find? cs m.1 m.2 hm
    obtain ⟨hb, _, hr⟩ := hf.unique hf'
    rw [hb, hr]

theorem find?_eq_none_iff (p : Pattern) (cs : List Char) : p.find? cs = none ↔ ¬ p.Occurs cs := by
  refine ⟨p.not_occurs_of_find? cs, ?_⟩
  intro hn
  by_contra hs
  obtain ⟨m, hm⟩ := Option.ne_none_iff_exists'.mp hs
  obtain ⟨found, hf⟩ := p.firstMatch_of_find? cs m.1 m.2 hm
  exact hn hf.occurs

theorem ends_iff (p : Pattern) (cs before : List Char) :
    p.Ends cs before ↔ before = (p.find? cs).elim cs Prod.fst := by
  cases hm : p.find? cs with
  | none =>
    have hn := (p.find?_eq_none_iff cs).mp hm
    refine ⟨?_, fun h => Or.inr ⟨h, hn⟩⟩
    rintro (⟨found, rest, hf⟩ | ⟨hb, _⟩)
    · exact absurd hf.occurs hn
    · exact hb
  | some m =>
    obtain ⟨found, hf⟩ := p.firstMatch_of_find? cs m.1 m.2 hm
    constructor
    · rintro (⟨found', rest', hf'⟩ | ⟨_, hn⟩)
      · exact (hf'.unique hf).1
      · exact absurd hf.occurs hn
    · rintro rfl
      exact Or.inl ⟨found, m.2, hf⟩

theorem Occurs.append {p : Pattern} {text : List Char} (h : p.Occurs text) (a b : List Char) :
    p.Occurs (a ++ text ++ b) := by
  obtain ⟨before, found, rest, rfl, hf⟩ := h
  exact ⟨a ++ before, found, rest ++ b, by simp only [List.append_assoc], hf⟩

theorem Ends.exists_append {p : Pattern} {text before : List Char} (h : p.Ends text before) :
    ∃ tail, text = before ++ tail := by
  obtain ⟨found, rest, hf⟩ | ⟨rfl, _⟩ := h
  · exact ⟨found ++ rest, by rw [hf.split, List.append_assoc]⟩
  · exact ⟨[], (List.append_nil before).symm⟩

theorem Ends.not_occurs {p : Pattern} {text before : List Char} (h : p.Ends text before)
    (hp : ¬ p.Matches []) : ¬ p.Occurs before := by
  obtain ⟨found, rest, hf⟩ | ⟨rfl, hn⟩ := h
  · rintro ⟨a, u, v, rfl, hu⟩
    have hle := hf.leftmost a u (v ++ found ++ rest) (by simp only [hf.split, List.append_assoc]) hu
    simp only [List.length_append] at hle
    have hu0 : u = [] := List.eq_nil_of_length_eq_zero (by omega)
    exact hp (hu0 ▸ hu)
  · exact hn

/-- The first success of a reader among the rests that a pattern leaves. -/
def then? {α : Type} (p : Pattern) (k : List Char → Option α) (cs : List Char) : Option α :=
  (p.rests cs).findSome? k

def Rejects {α : Type} (k : List Char → Option α) (p : Char → Bool) : Prop :=
  ∀ c cs, p c → k (c :: cs) = none

section

variable {α : Type} (k : List Char → Option α)

theorem then?_some (p : Pattern) (cs : List Char) : p.then? some cs = (p.rests cs).head? := by
  rw [then?, ← List.head?_filterMap, List.filterMap_some]

theorem then?_ne_none (p : Pattern) (cs rest : List Char) (h : rest ∈ p.rests cs)
    (hk : k rest ≠ none) : p.then? k cs ≠ none := by
  intro hn
  rw [then?, List.findSome?_eq_none_iff] at hn
  exact hk (hn rest h)

@[simp] theorem then?_nothing : nothing.then? k = k := by
  funext cs
  simp [then?, rests]

@[simp] theorem then?_one_nil (p : Char → Bool) : (one p).then? k [] = none := rfl

@[simp] theorem then?_one_cons (p : Char → Bool) (c : Char) (cs : List Char) :
    (one p).then? k (c :: cs) = if p c then k cs else none := by
  rw [then?, rests]
  split
  · simp
  · rfl

@[simp] theorem then?_both (a b : Pattern) : (both a b).then? k = a.then? (b.then? k) := by
  funext cs
  rw [then?, rests, ← List.head?_filterMap, List.filterMap_flatMap, List.head?_flatMap]
  simp only [List.head?_filterMap]
  rfl

@[simp] theorem then?_either (a b : Pattern) (cs : List Char) :
    (either a b).then? k cs = (a.then? k cs).or (b.then? k cs) := by
  simp only [then?, rests, List.findSome?_append]

@[simp] theorem then?_maybe (a : Pattern) (cs : List Char) :
    (maybe a).then? k cs = (a.then? k cs).or (k cs) := by
  rw [maybe, then?_either, then?_nothing]

@[simp] theorem then?_inTurn_nil : (inTurn []).then? k = k :=
  then?_nothing k

@[simp] theorem then?_inTurn_cons (a : Pattern) (l : List Pattern) :
    (inTurn (a :: l)).then? k = a.then? ((inTurn l).then? k) :=
  then?_both k a (inTurn l)

@[simp] theorem then?_anyOf_nil (cs : List Char) : (anyOf []).then? k cs = none := rfl

@[simp] theorem then?_anyOf_cons (a : Pattern) (l : List Pattern) (cs : List Char) :
    (anyOf (a :: l)).then? k cs = (a.then? k cs).or ((anyOf l).then? k cs) :=
  then?_either k a (anyOf l) cs

theorem then?_many_some (p : Char → Bool) (cs : List Char) :
    (many p).then? some cs = some (cs.dropWhile p) := by
  rw [then?_some, rests]
  induction cs with
  | nil => rfl
  | cons c cs ih =>
    by_cases hc : p c
    · simp [runs, hc, List.head?_append, ih]
    · simp [runs, hc]

/-- With nothing to be said for a shorter run, a run goes on to its end. -/
theorem then?_many (p : Char → Bool) (h : Rejects k p) (cs : List Char) :
    (many p).then? k cs = k (cs.dropWhile p) := by
  rw [then?, rests]
  induction cs with
  | nil => simp [runs]
  | cons c cs ih =>
    by_cases hc : p c
    · simp [runs, hc, List.findSome?_append, ih, h c cs hc]
    · simp [runs, hc]

theorem then?_few (p : Char → Bool) (h : Rejects k p) (cs : List Char) :
    (few p).then? k cs = k (cs.dropWhile p) := by
  rw [then?, rests]
  induction cs with
  | nil => simp [runs]
  | cons c cs ih =>
    by_cases hc : p c
    · simp [runs, hc, ih, h c cs hc]
    · simp [runs, hc]

theorem then?_many_of_skips (p : Char → Bool) (h : ∀ c cs, p c → k (c :: cs) = k cs)
    (cs : List Char) : (many p).then? k cs = k cs := by
  rw [then?, rests]
  induction cs with
  | nil => simp [runs]
  | cons c cs ih =>
    by_cases hc : p c
    · simp [runs, hc, List.findSome?_append, ih, h c cs hc]
    · simp [runs, hc]

/-- Any characters, as few as possible, and then a pattern: that is a search for it. -/
theorem then?_few_any (q : Pattern) (cs : List Char) :
    (few fun _ => true).then? (q.then? some) cs = (q.find? cs).map Prod.snd := by
  have hq := q.then?_some
  rw [then?, rests]
  induction cs with
  | nil =>
    rw [find?, ← hq]
    cases hn : q.then? some [] <;> simp [runs, hn]
  | cons c cs ih =>
    rw [find?, ← hq, runs, if_pos rfl, List.reverse_append, List.reverse_singleton,
      List.singleton_append, List.findSome?_cons, ih]
    cases q.then? some (c :: cs) with
    | some rest => rfl
    | none =>
      rw [Option.map_map]
      rfl

theorem then?_upTo (p : Char → Bool) (h : Rejects k p) (n : Nat) (cs : List Char) :
    (upTo p n).then? k cs =
      if (cs.takeWhile p).length ≤ n then k (cs.dropWhile p) else none := by
  induction n generalizing cs with
  | zero =>
    rw [upTo, then?_nothing]
    cases cs with
    | nil => rfl
    | cons c cs =>
      by_cases hc : p c
      · simp [hc, h c cs hc]
      · simp [hc]
  | succ n ih =>
    rw [upTo, then?_maybe, then?_both]
    cases cs with
    | nil => simp
    | cons c cs =>
      by_cases hc : p c
      · simp [hc, ih, h c cs hc]
      · simp [hc]

end

end Pattern

end CodeAtlas.Text
