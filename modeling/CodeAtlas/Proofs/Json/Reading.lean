import Mathlib.Data.List.ReduceOption
import CodeAtlas.Codebase.Document
import CodeAtlas.Proofs.Json.Text
import CodeAtlas.Proofs.OrderedMap

namespace CodeAtlas.Json

variable {σ α β : Type}

/-- What may follow a value: a blank, a comma, a closing bracket or nothing. -/
def Stops (rest : List Char) : Prop :=
  ∀ c ∈ rest.head?, isBlank c = true ∨ c = ',' ∨ c = ']' ∨ c = '}'

/-- The reader takes this text for that value, wherever it stands. -/
structure Reads (value : Reader α) (text : List Char) (a : α) : Prop where
  starts : ∃ c cs, text = c :: cs ∧ isBlank c = false ∧ c ≠ ']'
  result : ∀ b rest, Blank b → Stops rest → value (b ++ (text ++ rest)) = .ok (a, rest)

theorem reads_spelled (s : String) (text : List Char) (h : Spelled s text) :
    Reads string text s := by
  obtain ⟨inside, rfl, hq⟩ := h.quoted
  refine ⟨⟨'"', inside, rfl, rfl, by decide⟩, ?_⟩
  intro b rest hb _
  rw [string, List.cons_append, skipBlank_to b '"' _ hb rfl]
  exact hq rest

theorem reads_string (s : String) : Reads string (quote s) s :=
  reads_spelled s _ (spelled_quote s)

theorem Reads.optional (value : Reader α) (text : List Char) (a : α) (h : Reads value text a)
    (hn : text.head? ≠ some 'n') : Reads (optional value) text (some a) where
  starts := h.starts
  result b rest hb hr := by
    obtain ⟨c, cs, rfl, hc, _⟩ := h.starts
    have hv := h.result b rest hb hr
    rw [List.cons_append] at hv ⊢
    rw [Json.optional, skipBlank_to b c _ hb hc, hv]
    split
    · next he =>
      cases he
      exact absurd rfl hn
    · rfl

theorem reads_optional_null (value : Reader α) : Reads (optional value) nullText none where
  starts := ⟨'n', _, rfl, rfl, by decide⟩
  result b rest hb _ := by
    rw [nullText, Json.optional]
    simp only [List.cons_append, List.nil_append, skipBlank_to b 'n' _ hb rfl]
    rfl

theorem Reads.put (value : Reader β) (text : List Char) (b : β) (h : Reads value text b)
    (set : β → σ → σ) : Reads (Field.put value set) text (set b) where
  starts := h.starts
  result blanks rest hb hr := by
    rw [Field.put, h.result blanks rest hb hr]
    rfl

/-- What comes before a part of an array or object: a comma, unless it is the first part, and any
blanks. -/
inductive Leads : Bool → List Char → Prop where
  | first {b : List Char} (hb : Blank b) : Leads true b
  | comma {b b' : List Char} (hb : Blank b) (hb' : Blank b') : Leads false (b ++ ',' :: b')

inductive Enclosed (close : Char) : Bool → List (List Char) → List Char → Prop where
  | close {first : Bool} {b : List Char} (hb : Blank b) : Enclosed close first [] (b ++ [close])
  | part {first : Bool} {lead part text : List Char} {parts : List (List Char)}
      (hl : Leads first lead) (h : Enclosed close false parts text) :
      Enclosed close first (part :: parts) (lead ++ (part ++ text))

theorem stops_blank_append (b : List Char) (c : Char) (rest : List Char) (hb : Blank b)
    (hc : c = ',' ∨ c = ']' ∨ c = '}') : Stops (b ++ c :: rest) := by
  intro d hd
  cases b with
  | nil =>
    cases hd
    exact Or.inr hc
  | cons e b =>
    cases hd
    exact Or.inl (hb _ List.mem_cons_self)

theorem Enclosed.stops (close : Char) (parts : List (List Char)) (text : List Char)
    (h : Enclosed close false parts text) (hc : close = ']' ∨ close = '}') (rest : List Char) :
    Stops (text ++ rest) := by
  cases h with
  | close hb =>
    rw [List.append_assoc]
    exact stops_blank_append _ close _ hb (Or.inr hc)
  | part hl _ =>
    cases hl with
    | comma hb _ =>
      rw [List.append_assoc, List.append_assoc]
      exact stops_blank_append _ ',' _ hb (Or.inl rfl)

theorem nextItem_close (first : Bool) (b rest : List Char) (hb : Blank b) :
    nextItem first (b ++ ']' :: rest) = .ok (false, ']' :: rest) := by
  rw [nextItem, skipBlank_to b _ _ hb rfl]
  rfl

theorem nextItem_lead (first : Bool) (lead : List Char) (hl : Leads first lead) (c : Char)
    (rest : List Char) (hc : isBlank c = false) (hne : c ≠ ']') :
    nextItem first (lead ++ c :: rest) = .ok (true, c :: rest) := by
  cases hl with
  | first hb =>
    rw [nextItem, skipBlank_to _ c _ hb hc]
    split
    · next he => cases he
    · next he => exact absurd (List.cons.inj he).1 hne
    · next he =>
      cases he
      rfl
  | comma hb hb' =>
    rw [List.append_assoc, List.cons_append, nextItem, skipBlank_to _ ',' _ hb rfl]
    simp only [↓Char.isValue, Char.reduceEq, imp_self, Bool.false_eq_true, ↓reduceIte,
      skipBlank_to _ c _ hb' hc]
    split
    · next he => cases he
    · next he => exact absurd (List.cons.inj he).1 hne
    · rfl

theorem itemRound_close (item : Reader α) (read : List α) (b rest : List Char) (hb : Blank b) :
    itemRound item read (b ++ ']' :: rest) = .ok (.done read.reverse, rest) := by
  rw [itemRound, nextItem_close _ b rest hb, ok_bind]
  rfl

theorem itemRound_part (item : Reader α) (a : α) (read : List α) (lead part rest : List Char)
    (hl : Leads read.isEmpty lead) (h : Reads item part a) (hr : Stops rest) :
    itemRound item read (lead ++ (part ++ rest)) = .ok (.more (a :: read), rest) := by
  have hv := h.result [] rest blank_nil hr
  obtain ⟨c, cs, rfl, hc, hne⟩ := h.starts
  rw [List.nil_append, List.cons_append] at hv
  rw [itemRound, List.cons_append, nextItem_lead _ lead hl c _ hc hne, ok_bind]
  simp only [if_true, hv, ok_bind]

theorem runs_items (item : Reader α) (parts : List (List Char)) (values : List α)
    (h : List.Forall₂ (Reads item) parts values) (text : List Char) (read : List α)
    (ht : Enclosed ']' read.isEmpty parts text) (rest : List Char) :
    Runs (itemRound item) read (text ++ rest) (read.reverse ++ values) rest := by
  induction h generalizing text read with
  | nil =>
    cases ht with
    | close hb =>
      rw [List.append_nil, List.append_assoc]
      exact .done (itemRound_close item read _ rest hb)
  | @cons part a parts values hp _ ih =>
    cases ht with
    | part hl hf =>
      rw [List.append_assoc, List.append_assoc]
      have hs := hf.stops _ _ _ (Or.inl rfl) rest
      have hr := ih _ (a :: read) hf
      rw [List.reverse_cons, List.append_assoc, List.singleton_append] at hr
      refine .more (itemRound_part item _ read _ _ _ hl hp hs) ?_ hr
      obtain ⟨c, cs, rfl, _, _⟩ := hp.starts
      simp only [List.length_append, List.length_cons]
      omega

theorem reads_list (item : Reader α) (parts : List (List Char)) (values : List α)
    (h : List.Forall₂ (Reads item) parts values) (text : List Char)
    (ht : Enclosed ']' true parts text) : Reads (list item) ('[' :: text) values where
  starts := ⟨'[', text, rfl, rfl, by decide⟩
  result b rest hb _ := by
    rw [list, List.cons_append, skipBlank_to b '[' _ hb rfl]
    exact loop_of_runs _ _ _ _ _ (runs_items item parts values h text [] ht rest)

def Member (key : String) (text part : List Char) : Prop :=
  ∃ b b', Blank b ∧ Blank b' ∧ part = quote key ++ (b ++ ':' :: (b' ++ text))

def Entry (key : String) (text part : List Char) : Prop :=
  ∃ k b b', Spelled key k ∧ Blank b ∧ Blank b' ∧ part = k ++ (b ++ ':' :: (b' ++ text))

theorem Member.entry (key : String) (text part : List Char) (h : Member key text part) :
    Entry key text part := by
  obtain ⟨b, b', hb, hb', rfl⟩ := h
  exact ⟨quote key, b, b', spelled_quote key, hb, hb', rfl⟩

theorem Entry.length_pos (key : String) (text part : List Char) (h : Entry key text part) :
    0 < part.length := by
  obtain ⟨k, b, b', hk, _, _, rfl⟩ := h
  obtain ⟨inside, rfl, _⟩ := hk.quoted
  rw [List.cons_append, List.length_cons]
  omega

theorem nextKey_close (first : Bool) (b rest : List Char) (hb : Blank b) :
    nextKey first (b ++ '}' :: rest) = .ok (none, rest) := by
  rw [nextKey, skipBlank_to b _ _ hb rfl]
  rfl

theorem nextKey_spelled (first : Bool) (lead : List Char) (hl : Leads first lead) (key : String)
    (k : List Char) (hk : Spelled key k) (rest : List Char) :
    nextKey first (lead ++ (k ++ rest)) = .ok (some key, rest) := by
  obtain ⟨inside, rfl, hq⟩ := hk.quoted
  rw [List.cons_append]
  cases hl with
  | first hb =>
    rw [nextKey, skipBlank_to _ '"' _ hb rfl]
    simp [hq, ok_bind]
  | comma hb hb' =>
    rw [List.append_assoc, List.cons_append, nextKey, skipBlank_to _ ',' _ hb rfl]
    simp [skipBlank_to _ '"' _ hb' rfl, hq, ok_bind]

theorem nextKey_lead (first : Bool) (lead : List Char) (hl : Leads first lead) (key : String)
    (rest : List Char) :
    nextKey first (lead ++ (quote key ++ rest)) = .ok (some key, rest) :=
  nextKey_spelled first lead hl key _ (spelled_quote key) rest

theorem colon_blank (b rest : List Char) (hb : Blank b) :
    colon (b ++ ':' :: rest) = .ok ((), rest) := by
  rw [colon, skipBlank_to b ':' _ hb rfl]
  rfl

theorem nextKey_entry (first : Bool) (lead : List Char) (hl : Leads first lead) (key : String)
    (text part : List Char) (hm : Entry key text part) (rest : List Char) :
    ∃ cs, nextKey first (lead ++ (part ++ rest)) = .ok (some key, cs) ∧
      ∃ b', Blank b' ∧ colon cs = .ok ((), b' ++ (text ++ rest)) := by
  obtain ⟨k, b, b', hk, hb, hb', rfl⟩ := hm
  refine ⟨b ++ ':' :: (b' ++ (text ++ rest)), ?_, b', hb', colon_blank b _ hb⟩
  have h := nextKey_spelled first lead hl key k hk (b ++ ':' :: (b' ++ (text ++ rest)))
  simpa only [List.append_assoc, List.cons_append] using h

theorem entryRound_member (value : Reader α) (a : α) (m : OrderedMap String α) (first : Bool)
    (lead : List Char) (hl : Leads first lead) (key : String) (text part : List Char)
    (hm : Member key text part) (h : Reads value text a) (rest : List Char) (hr : Stops rest) :
    entryRound value (m, first) (lead ++ (part ++ rest)) =
      .ok (.more (m.insert key a, false), rest) := by
  obtain ⟨cs, hk, b, hb, hc⟩ := nextKey_entry first lead hl key text part hm.entry rest
  simp only [entryRound, hk, ok_bind, hc, h.result b rest hb hr]

theorem runs_entries (value : Reader α) (parts : List (List Char)) (entries : List (String × α))
    (h : List.Forall₂ (fun part e => ∃ text, Member e.1 text part ∧ Reads value text e.2)
      parts entries) (text : List Char) (m : OrderedMap String α) (first : Bool)
    (ht : Enclosed '}' first parts text) (rest : List Char) :
    Runs (entryRound value) (m, first) (text ++ rest)
      (entries.foldl (fun m e => m.insert e.1 e.2) m) rest := by
  induction h generalizing text m first with
  | nil =>
    cases ht with
    | close hb =>
      rw [List.append_assoc]
      refine .done ?_
      rw [entryRound, List.singleton_append, nextKey_close first _ rest hb]
      rfl
  | @cons part e parts entries hp _ ih =>
    cases ht with
    | part hl hf =>
      obtain ⟨text, hm, hv⟩ := hp
      rw [List.append_assoc, List.append_assoc]
      have hs := hf.stops _ _ _ (Or.inr rfl) rest
      refine .more (entryRound_member value e.2 m first _ hl e.1 text part hm hv _ hs) ?_
        (ih _ _ false hf)
      have hlen := hm.entry.length_pos
      simp only [List.length_append]
      omega

theorem reads_dictionary (value : Reader α) (parts : List (List Char))
    (entries : List (String × α))
    (h : List.Forall₂ (fun part e => ∃ text, Member e.1 text part ∧ Reads value text e.2)
      parts entries) (text : List Char) (ht : Enclosed '}' true parts text) :
    Reads (dictionary value) ('{' :: text) (.ofList entries) where
  starts := ⟨'{', text, rfl, rfl, by decide⟩
  result b rest hb _ := by
    rw [dictionary, List.cons_append, skipBlank_to b '{' _ hb rfl]
    exact loop_of_runs _ _ _ _ _ (runs_entries value parts entries h text .empty true ht rest)

def Sets (fields : List (Field σ)) (part : List Char) (e : String × (σ → σ)) : Prop :=
  ∃ f text, fields.find? (·.name == e.1) = some f ∧ Member e.1 text part ∧ Reads f.reader text e.2

/-- What a record makes of a member: a field sets its value, and what is no field is skipped. -/
inductive Effect (fields : List (Field σ)) : List Char → Option (String × (σ → σ)) → Prop where
  | field {f : Field σ} {key : String} {set : σ → σ} {text part : List Char}
      (hf : fields.find? (·.name == key) = some f) (hm : Entry key text part)
      (hv : Reads f.reader text set) : Effect fields part (some (key, set))
  | other {key : String} {text part : List Char} (hf : fields.find? (·.name == key) = none)
      (hm : Entry key text part) (hv : Reads skipValue text ()) : Effect fields part none

theorem Sets.effect (fields : List (Field σ)) (part : List Char) (e : String × (σ → σ))
    (h : Sets fields part e) : Effect fields part (some e) := by
  obtain ⟨f, text, hf, hm, hv⟩ := h
  exact .field hf hm.entry hv

theorem Effect.length_pos (fields : List (Field σ)) (part : List Char)
    (e : Option (String × (σ → σ))) (h : Effect fields part e) : 0 < part.length := by
  cases h with
  | field _ hm _ => exact hm.length_pos
  | other _ hm _ => exact hm.length_pos

def Draft.after (d : Draft σ) : Option (String × (σ → σ)) → Draft σ
  | none => { d with first := false }
  | some e => ⟨e.2 d.value, e.1 :: d.seen, false⟩

theorem memberRound_effect (fields : List (Field σ)) (d : Draft σ) (lead : List Char)
    (hl : Leads d.first lead) (part : List Char) (e : Option (String × (σ → σ)))
    (h : Effect fields part e) (hseen : ∀ key set, e = some (key, set) → key ∉ d.seen)
    (rest : List Char) (hr : Stops rest) :
    memberRound fields d (lead ++ (part ++ rest)) = .ok (.more (d.after e), rest) := by
  cases h with
  | @field f key set text _ hf hm hv =>
    obtain ⟨cs, hk, b, hb, hc⟩ := nextKey_entry d.first lead hl key text part hm rest
    have hs : d.seen.contains key = false := by simpa using hseen key set rfl
    simp only [memberRound, hk, ok_bind, hf, hs, Bool.false_eq_true, if_false, hc,
      hv.result b rest hb hr, Draft.after]
  | @other key text _ hf hm hv =>
    obtain ⟨cs, hk, b, hb, hc⟩ := nextKey_entry d.first lead hl key text part hm rest
    simp only [memberRound, hk, ok_bind, hf, hc, hv.result b rest hb hr, Draft.after]

theorem memberRound_member (fields : List (Field σ)) (d : Draft σ) (lead : List Char)
    (hl : Leads d.first lead) (part : List Char) (e : String × (σ → σ)) (h : Sets fields part e)
    (hseen : e.1 ∉ d.seen) (rest : List Char) (hr : Stops rest) :
    memberRound fields d (lead ++ (part ++ rest)) =
      .ok (.more ⟨e.2 d.value, e.1 :: d.seen, false⟩, rest) := by
  refine memberRound_effect fields d lead hl part (some e) h.effect ?_ rest hr
  rintro key set he
  cases he
  exact hseen

theorem runs_effects (fields : List (Field σ)) (parts : List (List Char))
    (effects : List (Option (String × (σ → σ)))) (h : List.Forall₂ (Effect fields) parts effects)
    (text : List Char) (d : Draft σ) (ht : Enclosed '}' d.first parts text)
    (hd : (effects.reduceOption.map Prod.fst ++ d.seen).Nodup)
    (hreq : ∀ f ∈ fields, f.required = true →
      f.name ∈ effects.reduceOption.map Prod.fst ++ d.seen) (rest : List Char) :
    Runs (memberRound fields) d (text ++ rest)
      (effects.reduceOption.foldl (fun s e => e.2 s) d.value) rest := by
  -- the keys still to come and those seen are distinct, and together they have every needed field
  induction h generalizing text d with
  | nil =>
    cases ht with
    | close hb =>
      have hc : d.isComplete fields = true := by
        rw [Draft.isComplete, List.all_eq_true]
        intro f hf
        by_cases hr : f.required = true
        · simpa [hr] using hreq f hf hr
        · simp [hr]
      rw [List.append_assoc]
      refine .done ?_
      rw [memberRound, List.singleton_append, nextKey_close d.first _ rest hb, ok_bind]
      simp only [hc, if_true]
      rfl
  | @cons part e parts effects hp _ ih =>
    cases ht with
    | @part _ lead _ text _ hl hf =>
      have hs := hf.stops _ _ _ (Or.inr rfl) rest
      have hlt : (text ++ rest).length < (lead ++ (part ++ (text ++ rest))).length := by
        have hlen := hp.length_pos
        simp only [List.length_append]
        omega
      rw [List.append_assoc, List.append_assoc]
      cases e with
      | none =>
        rw [List.reduceOption_cons_of_none] at hd hreq ⊢
        exact .more (memberRound_effect fields d _ hl part none hp (by simp) _ hs) hlt
          (ih _ (d.after none) hf hd hreq)
      | some e =>
        rw [List.reduceOption_cons_of_some, List.map_cons, List.cons_append] at hd hreq
        rw [List.reduceOption_cons_of_some, List.foldl_cons]
        have hseen : e.1 ∉ d.seen := fun hm =>
          (List.nodup_cons.mp hd).1 (List.mem_append_right _ hm)
        refine .more (memberRound_effect fields d _ hl part (some e) hp ?_ _ hs) hlt
          (ih _ (d.after (some e)) hf ?_ ?_)
        · rintro key set he
          cases he
          exact hseen
        · exact (List.perm_middle.nodup_iff).mpr hd
        · intro f hf hr
          exact (List.perm_middle.mem_iff).mpr (hreq f hf hr)

/-- A record whose members are fields of it, none twice and no needed one missing, or no fields at
all. -/
theorem reads_record_effects (fields : List (Field σ)) (blank : σ) (parts : List (List Char))
    (effects : List (Option (String × (σ → σ)))) (h : List.Forall₂ (Effect fields) parts effects)
    (hd : (effects.reduceOption.map Prod.fst).Nodup)
    (hreq : ∀ f ∈ fields, f.required = true → f.name ∈ effects.reduceOption.map Prod.fst)
    (text : List Char) (ht : Enclosed '}' true parts text) :
    Reads (record fields blank) ('{' :: text)
      (effects.reduceOption.foldl (fun s e => e.2 s) blank) where
  starts := ⟨'{', text, rfl, rfl, by decide⟩
  result b rest hb _ := by
    rw [record, List.cons_append, skipBlank_to b '{' _ hb rfl]
    refine loop_of_runs _ _ _ _ _
      (runs_effects fields parts effects h text ⟨blank, [], true⟩ ht ?_ ?_ rest)
    · simpa using hd
    · simpa using hreq

theorem reads_record (fields : List (Field σ)) (blank : σ) (parts : List (List Char))
    (sets : List (String × (σ → σ))) (h : List.Forall₂ (Sets fields) parts sets)
    (hd : (sets.map Prod.fst).Nodup)
    (hreq : ∀ f ∈ fields, f.required = true → f.name ∈ sets.map Prod.fst)
    (text : List Char) (ht : Enclosed '}' true parts text) :
    Reads (record fields blank) ('{' :: text) (sets.foldl (fun s e => e.2 s) blank) := by
  have he : (sets.map some).reduceOption = sets := by simp [List.reduceOption]
  have hr := reads_record_effects fields blank parts (sets.map some)
    (List.forall₂_map_right_iff.mpr (h.imp fun _ _ => Sets.effect fields _ _))
  rw [he] at hr
  exact hr hd hreq text ht

theorem positional_close (fields : List (Field σ)) (hf : ∀ f ∈ fields, f.required = false)
    (first : Bool) (value : σ) (b rest : List Char) (hb : Blank b) :
    positional fields first value (b ++ ']' :: rest) = .ok (value, rest) := by
  induction fields generalizing b with
  | nil =>
    rw [positional, closeArray, skipBlank_to b ']' _ hb rfl]
    rfl
  | cons f fields ih =>
    have hnext := ih (fun g hg => hf g (List.mem_cons_of_mem f hg)) [] blank_nil
    rw [positional, nextItem_close first b rest hb, ok_bind]
    simp only [hf f List.mem_cons_self, Bool.false_eq_true, if_false]
    exact hnext

theorem positional_parts (fields missing : List (Field σ)) (items : List (List Char × (σ → σ)))
    (h : List.Forall₂ (fun f i => Reads f.reader i.1 i.2) fields items)
    (hm : ∀ f ∈ missing, f.required = false) (text : List Char) (first : Bool)
    (ht : Enclosed ']' first (items.map Prod.fst) text) (value : σ) (rest : List Char) :
    positional (fields ++ missing) first value (text ++ rest) =
      .ok (items.foldl (fun s i => i.2 s) value, rest) := by
  induction h generalizing text first value with
  | nil =>
    cases ht with
    | close hb =>
      rw [List.append_assoc]
      exact positional_close missing hm first value _ rest hb
  | @cons f i fields items hp _ ih =>
    cases ht with
    | part hl hf =>
      have hs := hf.stops _ _ _ (Or.inl rfl) rest
      have hv := hp.result [] _ blank_nil hs
      obtain ⟨c, cs, he, hc, hne⟩ := hp.starts
      rw [he, List.nil_append, List.cons_append] at hv
      rw [List.append_assoc, List.append_assoc, he, List.cons_append, List.cons_append, positional,
        nextItem_lead first _ hl c _ hc hne, ok_bind]
      simp only [if_true, hv, ok_bind]
      exact ih _ false hf (i.2 value)

theorem reads_record_array (fields missing : List (Field σ)) (blank : σ)
    (items : List (List Char × (σ → σ)))
    (h : List.Forall₂ (fun f i => Reads f.reader i.1 i.2) fields items)
    (hm : ∀ f ∈ missing, f.required = false) (text : List Char)
    (ht : Enclosed ']' true (items.map Prod.fst) text) :
    Reads (record (fields ++ missing) blank) ('[' :: text)
      (items.foldl (fun s i => i.2 s) blank) where
  starts := ⟨'[', text, rfl, rfl, by decide⟩
  result b rest hb _ := by
    rw [record, List.cons_append, skipBlank_to b '[' _ hb rfl]
    exact positional_parts fields missing items h hm text true ht blank rest

end CodeAtlas.Json
