import Mathlib.Data.List.TakeWhile
import CodeAtlas.Proofs.Json.Reading

namespace CodeAtlas.Json

variable {σ α β : Type}

def Cut (p text : List Char) : Prop :=
  ∃ c rest, text = p ++ c :: rest

theorem cut_iff (p text : List Char) : Cut p text ↔ p <+: text ∧ p ≠ text := by
  constructor
  · rintro ⟨c, rest, rfl⟩
    exact ⟨List.prefix_append p _, by simp⟩
  · rintro ⟨⟨rest, rfl⟩, hne⟩
    cases rest with
    | nil => exact absurd (List.append_nil p).symm hne
    | cons c rest => exact ⟨c, rest, rfl⟩

theorem cut_nil (p : List Char) : ¬ Cut p [] := by
  rintro ⟨c, rest, h⟩
  simp at h

theorem cut_append (p u v : List Char) :
    Cut p (u ++ v) ↔ Cut p u ∨ ∃ q, p = u ++ q ∧ Cut q v := by
  constructor
  · rintro ⟨c, rest, h⟩
    obtain ⟨q, rfl, hv⟩ | ⟨q, rfl, hq⟩ := List.append_eq_append_iff.mp h
    · exact Or.inr ⟨q, rfl, c, rest, hv⟩
    · cases q with
      | nil => exact Or.inr ⟨[], by simp, c, rest, hq.symm⟩
      | cons d q => exact Or.inl ⟨d, q, rfl⟩
  · rintro (⟨c, rest, rfl⟩ | ⟨q, rfl, c, rest, rfl⟩)
    · exact ⟨c, rest ++ v, by simp⟩
    · exact ⟨c, rest, by simp⟩

theorem cut_cons (p : List Char) (c : Char) (cs : List Char) :
    Cut p (c :: cs) ↔ p = [] ∨ ∃ q, p = c :: q ∧ Cut q cs := by
  constructor
  · rintro ⟨d, rest, h⟩
    cases p with
    | nil => exact Or.inl rfl
    | cons e p =>
      obtain ⟨rfl, hcs⟩ := List.cons.inj h
      exact Or.inr ⟨p, rfl, d, rest, hcs⟩
  · rintro (rfl | ⟨q, rfl, d, rest, rfl⟩)
    · exact ⟨c, cs, rfl⟩
    · exact ⟨d, rest, rfl⟩

theorem Cut.blank (p b : List Char) (h : Cut p b) (hb : Blank b) : Blank p := by
  obtain ⟨c, rest, rfl⟩ := h
  exact fun d hd => hb d (List.mem_append_left _ hd)

theorem Cut.stops (p text : List Char) (h : Cut p text) (ht : Stops text) : Stops p := by
  obtain ⟨c, rest, rfl⟩ := h
  cases p with
  | nil => exact fun d hd => by cases hd
  | cons e p => exact ht

theorem skipBlank_blank (b : List Char) (hb : Blank b) : skipBlank b = [] :=
  List.dropWhile_eq_nil_iff.mpr hb

theorem error_bind (e : ReadError) (f : α → Except ReadError β) :
    (Except.error e >>= f) = .error e := rfl

inductive Stalls (step : σ → Reader (Round σ α)) : σ → List Char → Prop where
  | now {s : σ} {cs : List Char} (h : step s cs = .error .endOfText) : Stalls step s cs
  | later {s s' : σ} {cs cs' : List Char} (h : step s cs = .ok (.more s', cs'))
      (hr : Stalls step s' cs') : Stalls step s cs

/-- A loop without fuel reports the same fault, so the fuel does not matter here. -/
theorem rounds_of_stalls (step : σ → Reader (Round σ α)) (s : σ) (cs : List Char)
    (h : Stalls step s cs) (fuel : List Char) : rounds step fuel s cs = .error .endOfText := by
  induction h generalizing fuel with
  | now h => rw [rounds, h]
  | later h _ ih =>
    rw [rounds, h]
    cases fuel with
    | nil => rfl
    | cons c fuel => exact ih fuel

theorem loop_of_stalls (step : σ → Reader (Round σ α)) (s : σ) (cs : List Char)
    (h : Stalls step s cs) : loop step s cs = .error .endOfText :=
  rounds_of_stalls step s cs h cs

/-- The reader takes this text for that value, and of a text that is cut short it says so. -/
structure ReadsWhole (value : Reader α) (text : List Char) (a : α) : Prop
    extends Reads value text a where
  stalls : ∀ b p, Blank b → Cut p text → value (b ++ p) = .error .endOfText

theorem refuse_blank (b : List Char) (hb : Blank b) :
    (refuse b : Except ReadError (α × List Char)) = .error .endOfText := by
  rw [refuse, skipBlank_blank b hb]

theorem quotedRound_cut (read : List Char) (c : Char) (p : List Char) (h : Cut p (escape c)) :
    quotedRound codePoint read p = .error .endOfText := by
  rcases escape_cases c with ⟨d, he, _⟩ | ⟨a, n, ha, _, _, he⟩ | ⟨he, _⟩
  · simp only [he, cut_cons, cut_nil, and_false, exists_false, or_false] at h
    obtain rfl | ⟨_, rfl, rfl⟩ := h
    all_goals rfl
  · simp only [he, cut_cons, cut_nil, and_false, exists_false, or_false] at h
    obtain rfl | rfl : a = 0 ∨ a = 1 := by omega
    all_goals
      obtain rfl | ⟨_, rfl, rfl | ⟨_, rfl, rfl | ⟨_, rfl, rfl | ⟨_, rfl, rfl | ⟨_, rfl, rfl⟩⟩⟩⟩⟩ :=
        h
      all_goals rfl
  · simp only [he, cut_cons, cut_nil, and_false, exists_false, or_false] at h
    subst h
    rfl

theorem stalls_quoted (cs : List Char) (read p : List Char)
    (h : Cut p (cs.flatMap escape ++ ['"'])) : Stalls (quotedRound codePoint) read p := by
  induction cs generalizing read p with
  | nil =>
    obtain rfl | ⟨q, _, hq⟩ := (cut_cons p '"' []).mp h
    · exact .now rfl
    · exact absurd hq (cut_nil q)
  | cons c cs ih =>
    rw [List.flatMap_cons, List.append_assoc, cut_append] at h
    obtain hc | ⟨q, rfl, hq⟩ := h
    · exact .now (quotedRound_cut read c p hc)
    · exact .later (quotedRound_escape read c q) (ih (c :: read) q hq)

theorem cut_quote (s : String) (p : List Char) (h : Cut p (quote s)) :
    p = [] ∨ ∃ q, p = '"' :: q ∧ quoted q = .error .endOfText := by
  have hq := quote_append s []
  rw [List.append_nil] at hq
  rw [hq, cut_cons] at h
  obtain rfl | ⟨q, rfl, hq⟩ := h
  · exact Or.inl rfl
  · exact Or.inr ⟨q, rfl, loop_of_stalls _ _ _ (stalls_quoted s.toList [] q hq)⟩

theorem readsWhole_string (s : String) : ReadsWhole string (quote s) s where
  toReads := reads_string s
  stalls b p hb hp := by
    obtain rfl | ⟨q, rfl, hq⟩ := cut_quote s p hp
    · rw [List.append_nil, string, skipBlank_blank b hb]
      exact refuse_blank b hb
    · rw [string, skipBlank_to b '"' q hb rfl]
      exact hq

theorem optional_of_ne (value : Reader α) (cs : List Char)
    (h : (skipBlank cs).head? ≠ some 'n') :
    optional value cs = value cs >>= fun r => .ok (some r.1, r.2) := by
  rw [optional]
  split
  · next he => simp [he] at h
  · rfl

theorem ReadsWhole.optional (value : Reader α) (text : List Char) (a : α)
    (h : ReadsWhole value text a) (hn : text.head? ≠ some 'n') :
    ReadsWhole (optional value) text (some a) where
  toReads := h.toReads.optional value text a hn
  stalls b p hb hp := by
    have hv := h.stalls b p hb hp
    have hhead : (skipBlank (b ++ p)).head? ≠ some 'n' := by
      obtain ⟨c, cs, rfl, hc, _⟩ := h.starts
      obtain rfl | ⟨q, rfl, _⟩ := (cut_cons p c cs).mp hp
      · rw [List.append_nil, skipBlank_blank b hb]
        simp
      · rw [skipBlank_to b c q hb hc]
        exact hn
    rw [optional_of_ne value _ hhead, hv, error_bind]

theorem ReadsWhole.put (value : Reader β) (text : List Char) (b : β)
    (h : ReadsWhole value text b) (set : β → σ → σ) :
    ReadsWhole (Field.put value set) text (set b) where
  toReads := h.toReads.put value text b set
  stalls blanks p hb hp := by
    rw [Field.put, h.stalls blanks p hb hp, error_bind]

theorem Leads.cases_partial (first : Bool) (lead p : List Char) (hl : Leads first lead)
    (hp : p <+: lead) :
    Blank p ∨ first = false ∧ ∃ b q, p = b ++ ',' :: q ∧ Blank b ∧ Blank q := by
  obtain ⟨rest, hrest⟩ := hp
  cases hl with
  | first hb =>
    left
    rw [← hrest] at hb
    exact fun c hc => hb c (List.mem_append_left _ hc)
  | @comma b b' hb hb' =>
    obtain ⟨q, rfl, _⟩ | ⟨q, rfl, hq⟩ := List.append_eq_append_iff.mp hrest
    · exact Or.inl fun c hc => hb c (List.mem_append_left _ hc)
    · cases q with
      | nil =>
        left
        rwa [List.append_nil]
      | cons c q =>
        obtain ⟨rfl, rfl⟩ := List.cons.inj hq
        exact Or.inr ⟨rfl, b, q, rfl, hb, fun c hc => hb' c (List.mem_append_left _ hc)⟩

theorem nextItem_blank (first : Bool) (p : List Char) (hp : Blank p) :
    nextItem first p = .error .endOfText := by
  rw [nextItem, skipBlank_blank p hp]

theorem nextItem_partial (first : Bool) (lead p : List Char) (hl : Leads first lead)
    (hp : p <+: lead) : nextItem first p = .error .endOfText := by
  obtain hb | ⟨rfl, b, q, rfl, hb, hq⟩ := hl.cases_partial first lead p hp
  · exact nextItem_blank first p hb
  · rw [nextItem, skipBlank_to b ',' q hb rfl]
    simp [skipBlank_blank q hq]

theorem nextKey_blank (first : Bool) (p : List Char) (hp : Blank p) :
    nextKey first p = .error .endOfText := by
  rw [nextKey, skipBlank_blank p hp]

theorem nextKey_partial (first : Bool) (lead p : List Char) (hl : Leads first lead)
    (hp : p <+: lead) : nextKey first p = .error .endOfText := by
  obtain hb | ⟨rfl, b, q, rfl, hb, hq⟩ := hl.cases_partial first lead p hp
  · exact nextKey_blank first p hb
  · rw [nextKey, skipBlank_to b ',' q hb rfl]
    simp [skipBlank_blank q hq]

theorem Enclosed.cut_close (close : Char) (first : Bool) (text p : List Char)
    (h : Enclosed close first [] text) (hp : Cut p text) : Blank p := by
  cases h with
  | close hb =>
    obtain hc | ⟨q, rfl, hq⟩ := (cut_append p _ _).mp hp
    · exact hc.blank p _ hb
    · obtain rfl | ⟨r, _, hr⟩ := (cut_cons q close []).mp hq
      · rwa [List.append_nil]
      · exact absurd hr (cut_nil r)

theorem itemRound_cut (item : Reader α) (a : α) (read : List α) (lead part p : List Char)
    (hl : Leads read.isEmpty lead) (h : ReadsWhole item part a) (hp : Cut p (lead ++ part)) :
    itemRound item read p = .error .endOfText := by
  obtain hc | ⟨q, rfl, hq⟩ := (cut_append p lead part).mp hp
  · rw [itemRound, nextItem_partial _ lead p hl ((cut_iff p lead).mp hc).1, error_bind]
  · obtain ⟨c, cs, rfl, hc, hne⟩ := h.starts
    have hv := h.stalls [] q blank_nil hq
    obtain rfl | ⟨r, rfl, _⟩ := (cut_cons q c cs).mp hq
    · rw [List.append_nil, itemRound, nextItem_partial _ lead lead hl (List.prefix_refl lead),
        error_bind]
    · rw [List.nil_append] at hv
      rw [itemRound, nextItem_lead _ lead hl c r hc hne, ok_bind]
      simp only [if_true, hv, error_bind]

theorem stalls_items (item : Reader α) (parts : List (List Char)) (values : List α)
    (h : List.Forall₂ (ReadsWhole item) parts values) (text : List Char) (read : List α)
    (ht : Enclosed ']' read.isEmpty parts text) (p : List Char) (hp : Cut p text) :
    Stalls (itemRound item) read p := by
  -- the parts before the cut are read as they are; the round in which it lies finds the end
  induction h generalizing text read p with
  | nil =>
    have hb := ht.cut_close _ _ _ p hp
    refine .now ?_
    rw [itemRound, nextItem_blank _ p hb, error_bind]
  | @cons part a parts values hpart _ ih =>
    cases ht with
    | part hl hf =>
      rw [← List.append_assoc, cut_append] at hp
      obtain hc | ⟨q, rfl, hq⟩ := hp
      · exact .now (itemRound_cut item a read _ part p hl hpart hc)
      · have hs := hq.stops q _ (by simpa using hf.stops _ _ _ (Or.inl rfl) [])
        rw [List.append_assoc]
        exact .later (itemRound_part item a read _ part q hl hpart.toReads hs)
          (ih _ (a :: read) hf q hq)

theorem readsWhole_list (item : Reader α) (parts : List (List Char)) (values : List α)
    (h : List.Forall₂ (ReadsWhole item) parts values) (text : List Char)
    (ht : Enclosed ']' true parts text) : ReadsWhole (list item) ('[' :: text) values where
  toReads := reads_list item parts values (h.imp fun _ _ => ReadsWhole.toReads) text ht
  stalls b p hb hp := by
    obtain rfl | ⟨q, rfl, hq⟩ := (cut_cons p '[' text).mp hp
    · rw [List.append_nil, list, skipBlank_blank b hb]
      exact refuse_blank b hb
    · rw [list, skipBlank_to b '[' q hb rfl]
      exact loop_of_stalls _ _ _ (stalls_items item parts values h text [] ht q hq)

/-- A member that is cut short ends within its key, before its colon, or within its value. -/
theorem nextKey_cut (first : Bool) (lead : List Char) (hl : Leads first lead) (key : String)
    (text part : List Char) (hm : Member key text part) (value : Reader α) (a : α)
    (hv : ReadsWhole value text a) (p : List Char) (hp : Cut p (lead ++ part)) :
    nextKey first p = .error .endOfText ∨
      ∃ cs, nextKey first p = .ok (some key, cs) ∧
        (colon cs = .error .endOfText ∨
          ∃ rest, colon cs = .ok ((), rest) ∧ value rest = .error .endOfText) := by
  obtain ⟨b, b', hb, hb', rfl⟩ := hm
  obtain hlead | ⟨q, rfl, hq⟩ := (cut_append p lead _).mp hp
  · exact Or.inl (nextKey_partial first lead p hl ((cut_iff p lead).mp hlead).1)
  obtain hkey | ⟨r, rfl, hr⟩ := (cut_append q (quote key) _).mp hq
  · left
    obtain rfl | ⟨t, rfl, ht⟩ := cut_quote key q hkey
    · rw [List.append_nil]
      exact nextKey_partial first lead lead hl (List.prefix_refl lead)
    · cases hl with
      | first hb =>
        rw [nextKey, skipBlank_to _ '"' t hb rfl]
        simp [ht, error_bind]
      | comma hb hb' =>
        rw [List.append_assoc, List.cons_append, nextKey, skipBlank_to _ ',' _ hb rfl]
        simp [skipBlank_to _ '"' t hb' rfl, ht, error_bind]
  · refine Or.inr ⟨r, nextKey_lead first lead hl key r, ?_⟩
    obtain hbefore | ⟨t, rfl, ht⟩ := (cut_append r b _).mp hr
    · left
      rw [colon, skipBlank_blank r (hbefore.blank r b hb)]
    obtain rfl | ⟨u, rfl, hu⟩ := (cut_cons t ':' _).mp ht
    · left
      rw [List.append_nil, colon, skipBlank_blank b hb]
    · refine Or.inr ⟨u, colon_blank b u hb, ?_⟩
      obtain hafter | ⟨w, rfl, hw⟩ := (cut_append u b' text).mp hu
      · obtain ⟨c, cs, rfl, _⟩ := hv.starts
        have hnone := hv.stalls u [] (hafter.blank u b' hb') ⟨c, cs, rfl⟩
        rwa [List.append_nil] at hnone
      · exact hv.stalls b' w hb' hw

theorem entryRound_cut (value : Reader α) (a : α) (m : OrderedMap String α) (first : Bool)
    (lead : List Char) (hl : Leads first lead) (key : String) (text part : List Char)
    (hm : Member key text part) (h : ReadsWhole value text a) (p : List Char)
    (hp : Cut p (lead ++ part)) : entryRound value (m, first) p = .error .endOfText := by
  obtain hk | ⟨cs, hk, hc | ⟨rest, hc, hv⟩⟩ :=
    nextKey_cut first lead hl key text part hm value a h p hp
  · simp only [entryRound, hk, error_bind]
  · simp only [entryRound, hk, ok_bind, hc, error_bind]
  · simp only [entryRound, hk, ok_bind, hc, hv, error_bind]

theorem stalls_entries (value : Reader α) (parts : List (List Char)) (entries : List (String × α))
    (h : List.Forall₂ (fun part e => ∃ text, Member e.1 text part ∧ ReadsWhole value text e.2)
      parts entries) (text : List Char) (m : OrderedMap String α) (first : Bool)
    (ht : Enclosed '}' first parts text) (p : List Char) (hp : Cut p text) :
    Stalls (entryRound value) (m, first) p := by
  induction h generalizing text m first p with
  | nil =>
    have hb := ht.cut_close _ _ _ p hp
    refine .now ?_
    rw [entryRound, nextKey_blank first p hb, error_bind]
  | @cons part e parts entries hpart _ ih =>
    cases ht with
    | part hl hf =>
      obtain ⟨body, hm, hv⟩ := hpart
      rw [← List.append_assoc, cut_append] at hp
      obtain hc | ⟨q, rfl, hq⟩ := hp
      · exact .now (entryRound_cut value e.2 m first _ hl e.1 body part hm hv p hc)
      · have hs := hq.stops q _ (by simpa using hf.stops _ _ _ (Or.inr rfl) [])
        rw [List.append_assoc]
        exact .later (entryRound_member value e.2 m first _ hl e.1 body part hm hv.toReads q hs)
          (ih _ _ false hf q hq)

theorem readsWhole_dictionary (value : Reader α) (parts : List (List Char))
    (entries : List (String × α))
    (h : List.Forall₂ (fun part e => ∃ text, Member e.1 text part ∧ ReadsWhole value text e.2)
      parts entries) (text : List Char) (ht : Enclosed '}' true parts text) :
    ReadsWhole (dictionary value) ('{' :: text) (.ofList entries) where
  toReads := by
    refine reads_dictionary value parts entries (h.imp ?_) text ht
    rintro part e ⟨body, hm, hv⟩
    exact ⟨body, hm, hv.toReads⟩
  stalls b p hb hp := by
    obtain rfl | ⟨q, rfl, hq⟩ := (cut_cons p '{' text).mp hp
    · rw [List.append_nil, dictionary, skipBlank_blank b hb]
      exact refuse_blank b hb
    · rw [dictionary, skipBlank_to b '{' q hb rfl]
      exact loop_of_stalls _ _ _ (stalls_entries value parts entries h text .empty true ht q hq)

def SetsWhole (fields : List (Field σ)) (part : List Char) (e : String × (σ → σ)) : Prop :=
  ∃ f text, fields.find? (·.name == e.1) = some f ∧ Member e.1 text part ∧
    ReadsWhole f.reader text e.2

theorem SetsWhole.sets (fields : List (Field σ)) (part : List Char) (e : String × (σ → σ))
    (h : SetsWhole fields part e) : Sets fields part e := by
  obtain ⟨f, text, hf, hm, hv⟩ := h
  exact ⟨f, text, hf, hm, hv.toReads⟩

theorem memberRound_cut (fields : List (Field σ)) (d : Draft σ) (lead : List Char)
    (hl : Leads d.first lead) (part : List Char) (e : String × (σ → σ))
    (h : SetsWhole fields part e) (hseen : e.1 ∉ d.seen) (p : List Char)
    (hp : Cut p (lead ++ part)) : memberRound fields d p = .error .endOfText := by
  obtain ⟨f, text, hf, hm, hv⟩ := h
  have hs : d.seen.contains e.1 = false := by simpa using hseen
  obtain hk | ⟨cs, hk, hc | ⟨rest, hc, hr⟩⟩ :=
    nextKey_cut d.first lead hl e.1 text part hm f.reader e.2 hv p hp
  · simp only [memberRound, hk, error_bind]
  · simp only [memberRound, hk, ok_bind, hf, hs, Bool.false_eq_true, if_false, hc, error_bind]
  · simp only [memberRound, hk, ok_bind, hf, hs, Bool.false_eq_true, if_false, hc, hr, error_bind]

theorem stalls_members (fields : List (Field σ)) (parts : List (List Char))
    (sets : List (String × (σ → σ))) (h : List.Forall₂ (SetsWhole fields) parts sets)
    (text : List Char) (d : Draft σ) (ht : Enclosed '}' d.first parts text)
    (hd : (sets.map Prod.fst ++ d.seen).Nodup) (p : List Char) (hp : Cut p text) :
    Stalls (memberRound fields) d p := by
  induction h generalizing text d p with
  | nil =>
    have hb := ht.cut_close _ _ _ p hp
    refine .now ?_
    rw [memberRound, nextKey_blank d.first p hb, error_bind]
  | @cons part e parts sets hpart _ ih =>
    cases ht with
    | part hl hf =>
      rw [List.map_cons, List.cons_append, List.nodup_cons] at hd
      have hseen : e.1 ∉ d.seen := fun hm => hd.1 (List.mem_append_right _ hm)
      rw [← List.append_assoc, cut_append] at hp
      obtain hc | ⟨q, rfl, hq⟩ := hp
      · exact .now (memberRound_cut fields d _ hl part e hpart hseen p hc)
      · have hs := hq.stops q _ (by simpa using hf.stops _ _ _ (Or.inr rfl) [])
        rw [List.append_assoc]
        refine .later (memberRound_member fields d _ hl part e hpart.sets hseen q hs)
          (ih _ _ hf ?_ q hq)
        exact (List.perm_middle.nodup_iff).mpr (List.nodup_cons.mpr hd)

theorem readsWhole_record (fields : List (Field σ)) (blank : σ) (parts : List (List Char))
    (sets : List (String × (σ → σ))) (h : List.Forall₂ (SetsWhole fields) parts sets)
    (hd : (sets.map Prod.fst).Nodup)
    (hreq : ∀ f ∈ fields, f.required = true → f.name ∈ sets.map Prod.fst)
    (text : List Char) (ht : Enclosed '}' true parts text) :
    ReadsWhole (record fields blank) ('{' :: text) (sets.foldl (fun s e => e.2 s) blank) where
  toReads := reads_record fields blank parts sets (h.imp fun _ _ => SetsWhole.sets fields _ _) hd
    hreq text ht
  stalls b p hb hp := by
    obtain rfl | ⟨q, rfl, hq⟩ := (cut_cons p '{' text).mp hp
    · rw [List.append_nil, record, skipBlank_blank b hb]
      exact refuse_blank b hb
    · rw [record, skipBlank_to b '{' q hb rfl]
      exact loop_of_stalls _ _ _
        (stalls_members fields parts sets h text ⟨blank, [], true⟩ ht (by simpa using hd) q hq)

end CodeAtlas.Json
