import Mathlib
import CodeAtlas.Proofs.Json.Decimal

namespace CodeAtlas.Json

variable {σ α β : Type}

/-- The reader takes nothing that starts with this text, whatever blanks stand before it. -/
def Refuses (value : Reader α) (text : List Char) : Prop :=
  ∀ b rest r, Blank b → value (b ++ (text ++ rest)) ≠ .ok r

/-- The reader takes this text under a condition, and it refuses it without. -/
structure ReadsIff (value : Reader α) (text : List Char) (p : Prop) : Prop where
  reads : p → ∃ a, Reads value text a
  refuses : ¬ p → Refuses value text

theorem ReadsIff.of_iff (value : Reader α) (text : List Char) (p q : Prop)
    (h : ReadsIff value text p) (hpq : p ↔ q) : ReadsIff value text q where
  reads hq := h.reads (hpq.mpr hq)
  refuses hq := h.refuses (mt hpq.mp hq)

theorem Reads.readsIff (value : Reader α) (text : List Char) (a : α) (h : Reads value text a) :
    ReadsIff value text True where
  reads _ := ⟨a, h⟩
  refuses hfalse := absurd trivial hfalse

theorem ReadsIff.put (value : Reader β) (text : List Char) (p : Prop) (h : ReadsIff value text p)
    (set : β → σ → σ) : ReadsIff (Field.put value set) text p where
  reads hp := by
    obtain ⟨b, hb⟩ := h.reads hp
    exact ⟨set b, hb.put value text b set⟩
  refuses hp blanks rest r hb he := by
    obtain ⟨v, hv, _⟩ := (bind_eq_ok _ _ _).mp he
    exact h.refuses hp blanks rest v hb hv

theorem ReadsIff.read_iff (value : Reader α) (text : List Char) (p : Prop)
    (h : ReadsIff value text p) : (∃ a, read value (String.ofList text) = .ok a) ↔ p := by
  constructor
  · rintro ⟨a, ha⟩
    by_contra hp
    rw [read, String.toList_ofList] at ha
    obtain ⟨r, hr, _⟩ := (bind_eq_ok _ _ _).mp ha
    have hno := h.refuses hp [] [] r blank_nil
    rw [List.nil_append, List.append_nil] at hno
    exact hno hr
  · intro hp
    obtain ⟨a, ha⟩ := h.reads hp
    have hread := read_of_reads value text [] a ha blank_nil
    rw [List.append_nil] at hread
    exact ⟨a, hread⟩

theorem refuses_null : Refuses singleNumber nullText := by
  intro b rest r hb h
  obtain ⟨q, hq, _⟩ := (bind_eq_ok _ _ _).mp h
  rw [number, nullText, List.cons_append, skipBlank_to b 'n' _ hb rfl] at hq
  exact refuse_ne_ok _ q hq

/-- A number is written so that it can be read exactly if it is finite. -/
theorem readsIff_single (x : Float32) :
    ReadsIff singleNumber (singleText x) (x.isFinite = true) where
  reads h := by
    obtain ⟨q, hq⟩ := quantity_singleText x h
    exact ⟨q.toSingle, (reads_number _ q hq).map number _ q Quantity.toSingle⟩
  refuses h := by
    rw [singleText_of_not_isFinite x (Bool.eq_false_iff.mpr h)]
    exact refuses_null

inductive Balks (step : σ → Reader (Round σ α)) : σ → List Char → Prop where
  | now {s : σ} {cs : List Char} (h : ∀ r, step s cs ≠ .ok r) : Balks step s cs
  | later {s s' : σ} {cs cs' : List Char} (h : step s cs = .ok (.more s', cs'))
      (hr : Balks step s' cs') : Balks step s cs

theorem rounds_of_balks (step : σ → Reader (Round σ α)) (s : σ) (cs : List Char)
    (h : Balks step s cs) (fuel : List Char) (r : α × List Char) :
    rounds step fuel s cs ≠ .ok r := by
  induction h generalizing fuel with
  | @now s cs h =>
    rw [rounds]
    cases hs : step s cs with
    | error e =>
      intro he
      cases he
    | ok v => exact absurd hs (h v)
  | later h _ ih =>
    rw [rounds, h]
    cases fuel with
    | nil =>
      intro he
      cases he
    | cons c fuel => exact ih fuel

theorem memberRound_refused (fields : List (Field σ)) (d : Draft σ) (lead : List Char)
    (hl : Leads d.first lead) (key : String) (text part : List Char) (hm : Member key text part)
    (f : Field σ) (hf : fields.find? (·.name == key) = some f) (hv : Refuses f.reader text)
    (rest : List Char) (r : Round (Draft σ) σ × List Char) :
    memberRound fields d (lead ++ (part ++ rest)) ≠ .ok r := by
  intro h
  obtain ⟨cs, hk, b, hb, hc⟩ := nextKey_entry d.first lead hl key text part hm.entry rest
  simp only [memberRound, hk, ok_bind, hf, hc] at h
  split at h
  · cases h
  · obtain ⟨v, hread, _⟩ := (bind_eq_ok _ _ _).mp h
    exact hv b rest v hb hread

def SetsIff (fields : List (Field σ)) (key : String) (part : List Char) (p : Prop) : Prop :=
  ∃ f text, fields.find? (·.name == key) = some f ∧ Member key text part ∧
    ReadsIff f.reader text p

theorem SetsIff.sets (fields : List (Field σ)) (key : String) (part : List Char) (p : Prop)
    (h : SetsIff fields key part p) (hp : p) : ∃ set, Sets fields part (key, set) := by
  obtain ⟨f, text, hf, hm, hv⟩ := h
  obtain ⟨set, hset⟩ := hv.reads hp
  exact ⟨set, f, text, hf, hm, hset⟩

/-- Some member is refused: the loop takes those before it and gets no further. -/
theorem balks_members (fields : List (Field σ)) (parts : List (String × List Char))
    (conditions : List Prop)
    (h : List.Forall₂ (fun m p => SetsIff fields m.1 m.2 p) parts conditions)
    (hp : ¬ ∀ p ∈ conditions, p) (text : List Char) (d : Draft σ)
    (ht : Enclosed '}' d.first (parts.map Prod.snd) text)
    (hd : (parts.map Prod.fst ++ d.seen).Nodup) (rest : List Char) :
    Balks (memberRound fields) d (text ++ rest) := by
  induction h generalizing text d with
  | nil => simp at hp
  | @cons m p parts conditions hm _ ih =>
    rw [List.map_cons] at ht hd
    cases ht with
    | @part _ lead _ text _ hl hf =>
      rw [List.append_assoc, List.append_assoc]
      by_cases htrue : p
      · obtain ⟨set, hset⟩ := hm.sets _ _ _ _ htrue
        have hseen : m.1 ∉ d.seen := fun hmem =>
          (List.nodup_cons.mp hd).1 (List.mem_append_right _ hmem)
        have hs := hf.stops _ _ _ (Or.inr rfl) rest
        refine .later (memberRound_member fields d lead hl m.2 (m.1, set) hset hseen _ hs)
          (ih ?_ _ _ hf ?_)
        · intro hall
          exact hp (List.forall_mem_cons.mpr ⟨htrue, hall⟩)
        · exact (List.perm_middle.nodup_iff).mpr hd
      · obtain ⟨f, value, hfind, hmember, hv⟩ := hm
        exact .now (memberRound_refused fields d lead hl m.1 value m.2 hmember f hfind
          (hv.refuses htrue) _)

theorem readsIff_record (fields : List (Field σ)) (blank : σ) (parts : List (String × List Char))
    (conditions : List Prop)
    (h : List.Forall₂ (fun m p => SetsIff fields m.1 m.2 p) parts conditions)
    (hd : (parts.map Prod.fst).Nodup)
    (hreq : ∀ f ∈ fields, f.required = true → f.name ∈ parts.map Prod.fst)
    (text : List Char) (ht : Enclosed '}' true (parts.map Prod.snd) text) :
    ReadsIff (record fields blank) ('{' :: text) (∀ p ∈ conditions, p) where
  reads hp := by
    obtain ⟨sets, hsets, hkeys⟩ : ∃ sets : List (String × (σ → σ)),
        List.Forall₂ (Sets fields) (parts.map Prod.snd) sets ∧
          sets.map Prod.fst = parts.map Prod.fst := by
      clear hd hreq ht
      induction h with
      | nil => exact ⟨[], .nil, rfl⟩
      | @cons m p parts conditions hm _ ih =>
        obtain ⟨htrue, hall⟩ := List.forall_mem_cons.mp hp
        obtain ⟨set, hset⟩ := hm.sets _ _ _ _ htrue
        obtain ⟨sets, hsets, hkeys⟩ := ih hall
        exact ⟨(m.1, set) :: sets, .cons hset hsets, congrArg (m.1 :: ·) hkeys⟩
    rw [← hkeys] at hd hreq
    exact ⟨_, reads_record fields blank _ sets hsets hd hreq text ht⟩
  refuses hp b rest r hb he := by
    rw [record, List.cons_append, skipBlank_to b '{' _ hb rfl] at he
    exact rounds_of_balks _ _ _ (balks_members fields parts conditions h hp text
      ⟨blank, [], true⟩ ht (by simpa using hd) rest) _ r he

namespace Layout

variable (l : Layout) (d : Nat)

theorem setsIff (fields : List (Field σ)) (name : String) (required : Bool) (value : Reader β)
    (set : β → σ → σ)
    (hf : fields.find? (·.name == name) = some ⟨name, required, Field.put value set⟩) (j : Json)
    (p : Prop) (hv : ReadsIff value (l.chars (d + 1) j) p) :
    SetsIff fields name (l.member d (name, j)) p :=
  ⟨_, _, hf, l.isMember d (name, j), hv.put value _ p set⟩

theorem setsIff_single (fields : List (Field σ)) (name : String) (required : Bool)
    (set : Float32 → σ → σ)
    (hf : fields.find? (·.name == name) = some ⟨name, required, Field.put singleNumber set⟩)
    (x : Float32) :
    SetsIff fields name (l.member d (name, .single x)) (x.isFinite = true) := by
  refine l.setsIff d fields name required singleNumber set hf _ _ ?_
  rw [l.chars_single]
  exact readsIff_single x

theorem readsIff_record (fields : List (Field σ)) (blank : σ) (members : List (String × Json))
    (conditions : List Prop)
    (h : List.Forall₂ (fun m p => SetsIff fields m.1 (l.member d m) p) members conditions)
    (hd : (members.map Prod.fst).Nodup)
    (hreq : ∀ f ∈ fields, f.required = true → f.name ∈ members.map Prod.fst) :
    ReadsIff (record fields blank) (l.chars d (.obj members)) (∀ p ∈ conditions, p) := by
  obtain ⟨text, he, ht⟩ := l.chars_obj d members
  have hkeys : (members.map fun m => (m.1, l.member d m)).map Prod.fst = members.map Prod.fst := by
    rw [List.map_map]
    rfl
  have hparts : (members.map fun m => (m.1, l.member d m)).map Prod.snd =
      members.map (l.member d) := by
    rw [List.map_map]
    rfl
  rw [he]
  refine Json.readsIff_record fields blank (members.map fun m => (m.1, l.member d m)) conditions
    (List.forall₂_map_left_iff.mpr h) ?_ ?_ text ?_
  · rwa [hkeys]
  · rwa [hkeys]
  · rwa [hparts]

end Layout

def Yields (value : Reader α) (p : α → Prop) : Prop :=
  ∀ cs a rest, value cs = .ok (a, rest) → p a

def Field.Keeps (inv : σ → Prop) (f : Field σ) : Prop :=
  Yields f.reader fun change => ∀ s, inv s → inv (change s)

theorem Field.keeps_defaulted (inv : σ → Prop) (p : β → Prop) (name : String) (value : Reader β)
    (h : Yields value p) (set : β → σ → σ) (hset : ∀ b s, p b → inv s → inv (set b s)) :
    (defaulted name value set).Keeps inv := by
  intro cs change rest hc s hs
  obtain ⟨⟨b, mid⟩, hb, he⟩ := (bind_eq_ok _ _ _).mp hc
  cases he
  exact hset b s (h cs b _ hb) hs

theorem Field.keeps_of_set (inv : σ → Prop) (name : String) (value : Reader β) (set : β → σ → σ)
    (hset : ∀ b s, inv s → inv (set b s)) : (defaulted name value set).Keeps inv :=
  keeps_defaulted inv (fun _ => True) name value (fun _ _ _ _ => trivial) set fun b s _ => hset b s

theorem yields_rounds (step : σ → Reader (Round σ α)) (inv : σ → Prop) (p : α → Prop)
    (hmore : ∀ s cs s' rest, inv s → step s cs = .ok (.more s', rest) → inv s')
    (hdone : ∀ s cs a rest, inv s → step s cs = .ok (.done a, rest) → p a) (fuel : List Char)
    (s : σ) (hs : inv s) : Yields (rounds step fuel s) p := by
  intro cs a rest h
  fun_induction rounds step fuel s cs with
  | case1 fuel s cs e hstep => cases h
  | case2 fuel s cs value mid hstep =>
    cases h
    exact hdone s cs a rest hs hstep
  | case3 s cs next mid hstep => cases h
  | case4 s cs next mid hstep c fuel ih => exact ih (hmore s cs next mid hs hstep) h

section

variable (fields : List (Field σ)) (inv : σ → Prop)
  (hf : ∀ f ∈ fields, f.Keeps inv)

include hf

/-- One member changes the record at most by what its field does. -/
theorem memberRound_cases (d : Draft σ) (hd : inv d.value) (cs : List Char)
    (r : Round (Draft σ) σ) (rest : List Char) (h : memberRound fields d cs = .ok (r, rest)) :
    r = .done d.value ∨ ∃ d' : Draft σ, r = .more d' ∧ inv d'.value := by
  obtain ⟨⟨key, mid⟩, _, hround⟩ := (bind_eq_ok _ _ _).mp h
  cases key with
  | none =>
    dsimp only at hround
    split at hround
    · cases hround
      exact Or.inl rfl
    · cases hround
  | some key =>
    right
    dsimp only at hround
    split at hround
    · obtain ⟨_, _, hround⟩ := (bind_eq_ok _ _ _).mp hround
      obtain ⟨_, _, hround⟩ := (bind_eq_ok _ _ _).mp hround
      cases hround
      exact ⟨_, rfl, hd⟩
    · next f hfind =>
      split at hround
      · cases hround
      · obtain ⟨_, _, hround⟩ := (bind_eq_ok _ _ _).mp hround
        obtain ⟨⟨change, mid'⟩, hchange, hround⟩ := (bind_eq_ok _ _ _).mp hround
        cases hround
        exact ⟨_, rfl, hf f (List.mem_of_find?_eq_some hfind) _ change _ hchange d.value hd⟩

theorem yields_positional (first : Bool) (value : σ) (hv : inv value) :
    Yields (positional fields first value) inv := by
  induction fields generalizing first value with
  | nil =>
    intro cs s rest h
    obtain ⟨_, _, he⟩ := (bind_eq_ok _ _ _).mp h
    cases he
    exact hv
  | cons f fields ih =>
    intro cs s rest h
    rw [List.forall_mem_cons] at hf
    obtain ⟨⟨goesOn, mid⟩, _, hround⟩ := (bind_eq_ok _ _ _).mp h
    cases goesOn with
    | true =>
      obtain ⟨⟨change, mid'⟩, hchange, hrest⟩ := (bind_eq_ok _ _ _).mp hround
      exact ih hf.2 false _ (hf.1 _ change _ hchange value hv) _ s rest hrest
    | false =>
      dsimp only at hround
      rw [if_neg Bool.false_ne_true] at hround
      split at hround
      · cases hround
      · exact ih hf.2 first value hv _ s rest hround

/-- What the blank record has and every field keeps, a record that is read has. -/
theorem yields_record (blank : σ) (hb : inv blank) : Yields (record fields blank) inv := by
  intro cs s rest h
  rw [record] at h
  split at h
  · refine yields_rounds (memberRound fields) (fun d => inv d.value) inv ?_ ?_ _ _ hb _ s rest h
    · intro d cs d' rest hd hround
      obtain he | ⟨d'', he, hd''⟩ := memberRound_cases fields inv hf d hd cs _ rest hround
      · cases he
      · cases he
        exact hd''
    · intro d cs a rest hd hround
      obtain he | ⟨d'', he, _⟩ := memberRound_cases fields inv hf d hd cs _ rest hround
      · cases he
        exact hd
      · cases he
  · exact yields_positional fields inv hf true blank hb _ s rest h
  · exact absurd h (refuse_ne_ok _ _)

end

theorem Yields.read (value : Reader α) (p : α → Prop) (h : Yields value p) (text : String) (a : α)
    (ha : Json.read value text = .ok a) : p a := by
  obtain ⟨⟨a', rest⟩, hread, hend⟩ := (bind_eq_ok _ _ _).mp ha
  dsimp only at hend
  split at hend
  · cases hend
    exact h _ a rest hread
  · cases hend

end CodeAtlas.Json
