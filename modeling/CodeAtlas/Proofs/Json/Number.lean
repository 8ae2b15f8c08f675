import Mathlib.Data.List.TakeDrop
import CodeAtlas.Proofs.Json.Layout

namespace CodeAtlas.Json

variable {α β : Type}

theorem bind_eq_ok (x : Except ReadError α) (f : α → Except ReadError β) (b : β) :
    (x >>= f) = .ok b ↔ ∃ a, x = .ok a ∧ f a = .ok b := by
  cases x with
  | error e => simp [error_bind]
  | ok a => simp [ok_bind]

/-- What the reader leaves is the end of its text, and what may follow a value changes nothing. -/
def Settles (reader : Reader α) : Prop :=
  ∀ cs a rest, reader cs = .ok (a, rest) →
    rest <:+ cs ∧ ∀ more, Stops more → reader (cs ++ more) = .ok (a, rest ++ more)

theorem Stops.not_in_number (c : Char) (cs : List Char) (h : Stops (c :: cs)) :
    c.isDigit = false ∧ c ≠ '.' ∧ c ≠ 'e' ∧ c ≠ 'E' := by
  have hc := h c rfl
  simp only [isBlank, Bool.or_eq_true, beq_iff_eq] at hc
  rcases hc with (((rfl | rfl) | rfl) | rfl) | rfl | rfl | rfl
  all_goals decide

theorem Stops.head_append (p : Char → Prop) (hp : ∀ c cs, Stops (c :: cs) → p c)
    (cs more : List Char) (h : ∀ c, cs.head? = some c → p c) (hm : Stops more) (c : Char)
    (hc : (cs ++ more).head? = some c) : p c := by
  cases cs with
  | cons d cs => exact h c hc
  | nil =>
    obtain ⟨tail, rfl⟩ := List.head?_eq_some_iff.mp hc
    exact hp c tail hm

theorem settles_pure (a : α) : Settles fun cs => .ok (a, cs) := by
  intro cs b rest h
  cases h
  exact ⟨List.suffix_refl cs, fun _ _ => rfl⟩

theorem Settles.bind (reader : Reader α) (next : α → Reader β) (hr : Settles reader)
    (hn : ∀ a, Settles (next a)) : Settles fun cs => reader cs >>= fun r => next r.1 r.2 := by
  intro cs b rest h
  obtain ⟨⟨a, mid⟩, ha, hb⟩ := (bind_eq_ok _ _ _).mp h
  obtain ⟨hmid, hfirst⟩ := hr cs a mid ha
  obtain ⟨hrest, hsecond⟩ := hn a mid b rest hb
  refine ⟨hrest.trans hmid, ?_⟩
  intro more hm
  dsimp only
  rw [hfirst more hm, ok_bind]
  exact hsecond more hm

theorem Settles.after (reader inside : Reader α) (c : Char) (hi : Settles inside)
    (htake : ∀ cs, reader (c :: cs) = inside cs) (cs : List Char) (a : α) (rest : List Char)
    (h : reader (c :: cs) = .ok (a, rest)) :
    rest <:+ c :: cs ∧ ∀ more, Stops more → reader (c :: cs ++ more) = .ok (a, rest ++ more) := by
  rw [htake cs] at h
  obtain ⟨hsuffix, hmore⟩ := hi cs a rest h
  refine ⟨hsuffix.trans (List.suffix_cons c cs), ?_⟩
  intro more hm
  rw [List.cons_append, htake]
  exact hmore more hm

theorem Settles.same (reader other : Reader α) (c : Char) (ho : Settles other)
    (he : ∀ cs, reader (c :: cs) = other (c :: cs)) (cs : List Char) (a : α) (rest : List Char)
    (h : reader (c :: cs) = .ok (a, rest)) :
    rest <:+ c :: cs ∧ ∀ more, Stops more → reader (c :: cs ++ more) = .ok (a, rest ++ more) := by
  rw [he] at h
  obtain ⟨hsuffix, hmore⟩ := ho (c :: cs) a rest h
  refine ⟨hsuffix, ?_⟩
  intro more hm
  rw [List.cons_append, he]
  exact hmore more hm

/-- A part that has a sign of its own at its front and may be missing. -/
theorem settles_part (reader inside : Reader α) (missing : α) (sign : Char → Prop)
    (htake : ∀ c cs, sign c → reader (c :: cs) = inside cs)
    (hskip : ∀ cs, (∀ c, cs.head? = some c → ¬ sign c) → reader cs = .ok (missing, cs))
    (hstop : ∀ c cs, Stops (c :: cs) → ¬ sign c) (hi : Settles inside) : Settles reader := by
  intro cs a rest h
  by_cases hs : ∃ c tail, cs = c :: tail ∧ sign c
  · obtain ⟨c, tail, rfl, hc⟩ := hs
    exact hi.after reader inside c (fun cs => htake c cs hc) tail a rest h
  · have hno : ∀ c, cs.head? = some c → ¬ sign c := by
      intro c hc hsign
      obtain ⟨tail, rfl⟩ := List.head?_eq_some_iff.mp hc
      exact hs ⟨c, tail, rfl, hsign⟩
    rw [hskip cs hno] at h
    cases h
    refine ⟨List.suffix_refl cs, ?_⟩
    intro more hm
    exact hskip _ (Stops.head_append _ hstop cs more hno hm)

theorem digits_of_run (short : ReadError) (run rest : List Char) (hne : run ≠ [])
    (hrun : ∀ c ∈ run, c.isDigit = true) (hrest : ∀ c, rest.head? = some c → c.isDigit = false) :
    digits short (run ++ rest) = .ok (run, rest) := by
  have htake : rest.takeWhile Char.isDigit = [] := by
    cases rest with
    | nil => rfl
    | cons c rest => exact List.takeWhile_cons_of_neg (by simp [hrest c rfl])
  have hdrop : rest.dropWhile Char.isDigit = rest := by
    cases rest with
    | nil => rfl
    | cons c rest => exact List.dropWhile_cons_of_neg (by simp [hrest c rfl])
  rw [digits, List.span_eq_takeWhile_dropWhile, List.takeWhile_append_of_pos hrun,
    List.dropWhile_append_of_pos hrun, htake, hdrop, List.append_nil]
  cases run with
  | nil => exact absurd rfl hne
  | cons c run => rfl

theorem digits_eq_ok_iff (short : ReadError) (cs run rest : List Char) :
    digits short cs = .ok (run, rest) ↔
      cs = run ++ rest ∧ run ≠ [] ∧ (∀ c ∈ run, c.isDigit = true) ∧
        ∀ c, rest.head? = some c → c.isDigit = false := by
  constructor
  · intro h
    have hcs := List.takeWhile_append_dropWhile (p := Char.isDigit) (l := cs)
    have hnot := List.head?_dropWhile_not Char.isDigit cs
    have hrun : ∀ c ∈ cs.takeWhile Char.isDigit, c.isDigit = true :=
      fun c hc => List.mem_takeWhile_imp hc
    rw [digits, List.span_eq_takeWhile_dropWhile] at h
    generalize cs.takeWhile Char.isDigit = t at h hcs hrun
    generalize cs.dropWhile Char.isDigit = d at h hcs hnot
    cases t with
    | nil => cases d <;> cases h
    | cons c t =>
      cases h
      refine ⟨hcs.symm, List.cons_ne_nil c t, hrun, ?_⟩
      intro x hx
      rw [hx] at hnot
      exact hnot
  · rintro ⟨rfl, hne, hrun, hrest⟩
    exact digits_of_run short run rest hne hrun hrest

theorem settles_digits (short : ReadError) : Settles (digits short) := by
  intro cs run rest h
  obtain ⟨rfl, hne, hrun, hrest⟩ := (digits_eq_ok_iff short cs run rest).mp h
  refine ⟨List.suffix_append run rest, ?_⟩
  intro more hm
  rw [List.append_assoc]
  apply digits_of_run short run (rest ++ more) hne hrun
  exact Stops.head_append _ (fun c cs hs => (hs.not_in_number c cs).1) rest more hrest hm

theorem wholeDigits_eq_ok_iff (short : ReadError) (cs run rest : List Char) :
    wholeDigits short cs = .ok (run, rest) ↔
      digits short cs = .ok (run, rest) ∧ ∀ c more, run ≠ '0' :: c :: more := by
  rw [wholeDigits]
  constructor
  · intro h
    split at h
    · cases h
    · next hno =>
      refine ⟨h, ?_⟩
      rintro c more rfl
      exact hno c more rest h
  · rintro ⟨h, hno⟩
    rw [h]
    split
    · next he =>
      cases he
      exact absurd rfl (hno _ _)
    · rfl

theorem settles_wholeDigits (short : ReadError) : Settles (wholeDigits short) := by
  intro cs run rest h
  obtain ⟨hd, hno⟩ := (wholeDigits_eq_ok_iff short cs run rest).mp h
  obtain ⟨hsuffix, hmore⟩ := settles_digits short cs run rest hd
  exact ⟨hsuffix, fun more hm => (wholeDigits_eq_ok_iff _ _ _ _).mpr ⟨hmore more hm, hno⟩⟩

theorem settles_fractionDigits (short : ReadError) : Settles (fractionDigits short) := by
  refine settles_part _ (fun cs => digits short cs >>= fun r => .ok (some r.1, r.2)) none (· = '.')
    ?_ ?_ ?_ ((settles_digits short).bind _ _ fun run => settles_pure (some run))
  · rintro c cs rfl
    rfl
  · intro cs hno
    rw [fractionDigits]
    rintro rest rfl
    exact hno '.' rfl rfl
  · intro c cs hs
    exact (hs.not_in_number c cs).2.1

theorem settles_signedExponent (short : ReadError) : Settles (signedExponent short) := by
  have hmap : ∀ f : List Char → Int,
      Settles fun cs => digits short cs >>= fun r => .ok (f r.1, r.2) := fun f =>
    (settles_digits short).bind _ _ fun run => settles_pure (f run)
  intro cs a rest h
  cases cs with
  | nil => cases h
  | cons c cs =>
    by_cases hminus : c = '-'
    · subst hminus
      exact (hmap fun run => -natOfDigits run).after _ _ '-' (fun _ => rfl) cs a rest h
    by_cases hplus : c = '+'
    · subst hplus
      exact (hmap fun run => natOfDigits run).after _ _ '+' (fun _ => rfl) cs a rest h
    · refine (hmap fun run => natOfDigits run).same _ _ c ?_ cs a rest h
      intro tail
      rw [signedExponent]
      · simp [hminus]
      · simp [hplus]

theorem settles_exponent (short : ReadError) : Settles (exponent short) := by
  refine settles_part _ (fun cs => signedExponent short cs >>= fun r => .ok (some r.1, r.2)) none
    (fun c => c = 'e' ∨ c = 'E') ?_ ?_ ?_
    ((settles_signedExponent short).bind _ _ fun e => settles_pure (some e))
  · intro c cs hc
    rw [exponent, if_pos hc]
  · intro cs hno
    cases cs with
    | nil => rfl
    | cons c cs => rw [exponent, if_neg (hno c rfl)]
  · intro c cs hs
    have h := hs.not_in_number c cs
    exact not_or.mpr h.2.2

theorem settles_unsigned (short : ReadError) (negative : Bool) :
    Settles (unsigned short negative) :=
  (settles_wholeDigits short).bind _ _ fun whole =>
    (settles_fractionDigits short).bind _ _ fun fraction =>
      (settles_exponent short).bind _ _ fun exponent =>
        settles_pure (Numeral.mk negative whole fraction exponent)

theorem settles_numeral (short : ReadError) : Settles (numeral short) := by
  intro cs n rest h
  cases cs with
  | nil => cases h
  | cons c cs =>
    by_cases hminus : c = '-'
    · subst hminus
      exact (settles_unsigned short true).after _ _ '-' (fun _ => rfl) cs n rest h
    · refine (settles_unsigned short false).same _ _ c ?_ cs n rest h
      intro tail
      rw [numeral]
      simp [hminus]

theorem settles_quantity : Settles quantity := by
  intro cs q rest h
  obtain ⟨⟨n, mid⟩, hn, hq⟩ := (bind_eq_ok _ _ _).mp h
  obtain ⟨hsuffix, hmore⟩ := settles_numeral .endOfText cs n mid hn
  dsimp only at hq
  split at hq
  · next hvalue =>
    cases hq
    refine ⟨hsuffix, ?_⟩
    intro more hm
    rw [quantity, hmore more hm, ok_bind]
    simp only [hvalue]
  · cases hq

theorem startsNumber_of_quantity (c : Char) (cs : List Char) (q : Quantity) (rest : List Char)
    (h : quantity (c :: cs) = .ok (q, rest)) : startsNumber c = true := by
  by_cases hminus : c = '-'
  · subst hminus
    rfl
  · obtain ⟨⟨n, mid⟩, hn, _⟩ := (bind_eq_ok _ _ _).mp h
    rw [numeral] at hn
    · obtain ⟨⟨run, mid'⟩, hrun, _⟩ := (bind_eq_ok _ _ _).mp hn
      obtain ⟨hd, _⟩ := (wholeDigits_eq_ok_iff _ _ _ _).mp hrun
      obtain ⟨he, hne, hall, _⟩ := (digits_eq_ok_iff _ _ _ _).mp hd
      cases run with
      | nil => exact absurd rfl hne
      | cons d run =>
        obtain ⟨rfl, _⟩ := List.cons.inj he
        simp [startsNumber, hall c List.mem_cons_self]
    · simp [hminus]

theorem isBlank_of_startsNumber (c : Char) (h : startsNumber c = true) : isBlank c = false := by
  rw [Bool.eq_false_iff]
  intro hb
  simp only [isBlank, Bool.or_eq_true, beq_iff_eq] at hb
  rcases hb with ((rfl | rfl) | rfl) | rfl
  all_goals exact absurd h (by decide)

theorem reads_number (text : List Char) (q : Quantity) (h : quantity text = .ok (q, [])) :
    Reads number text q := by
  cases text with
  | nil => cases h
  | cons c cs =>
    have hc := startsNumber_of_quantity c cs q [] h
    have hb := isBlank_of_startsNumber c hc
    refine ⟨⟨c, cs, rfl, hb, ?_⟩, ?_⟩
    · rintro rfl
      exact absurd hc (by decide)
    · intro b rest hblank hr
      rw [number, List.cons_append, skipBlank_to b c _ hblank hb]
      simp only [hc, if_true]
      exact (settles_quantity _ _ _ h).2 rest hr

theorem decimalDigits_of_lt (n : Nat) (h : n < 10) : decimalDigits n = [Nat.digitChar n] :=
  Nat.toDigits_of_lt_base h

theorem decimalDigits_of_le (n : Nat) (h : 10 ≤ n) :
    decimalDigits n = decimalDigits (n / 10) ++ [Nat.digitChar (n % 10)] :=
  Nat.toDigits_of_base_le (by decide) h

theorem isDigit_of_mem_decimalDigits (n : Nat) (c : Char) (h : c ∈ decimalDigits n) :
    c.isDigit = true :=
  Nat.isDigit_of_mem_toDigits (by decide) (by decide) h

theorem takeWhole_decimalDigits (n : Nat) (h : n < Numeral.wordLimit) :
    Numeral.takeWhole (decimalDigits n) = (n, 0) := by
  have hdigit : ∀ m < 10, Numeral.digitValue (Nat.digitChar m) = m := by decide
  induction n using Nat.strongRecOn with
  | _ n ih =>
    by_cases hn : n < 10
    · rw [decimalDigits_of_lt n hn]
      simp [Numeral.takeWhole, hdigit n hn, h]
    · have hrest := ih (n / 10) (by omega) (by omega)
      have hnext : n / 10 * 10 + n % 10 = n := by omega
      rw [Numeral.takeWhole] at hrest
      rw [decimalDigits_of_le n (by omega), Numeral.takeWhole, List.foldl_append, hrest]
      simp [hdigit (n % 10) (Nat.mod_lt n (by decide)), hnext, h]

theorem head?_decimalDigits (n : Nat) (h : 0 < n) : (decimalDigits n).head? ≠ some '0' := by
  induction n using Nat.strongRecOn with
  | _ n ih =>
    by_cases hn : n < 10
    · have hdigit : ∀ m < 10, 0 < m → Nat.digitChar m ≠ '0' := by decide
      rw [decimalDigits_of_lt n hn]
      simpa using hdigit n hn h
    · have hhead := ih (n / 10) (by omega) (by omega)
      rw [decimalDigits_of_le n (by omega)]
      cases hd : decimalDigits (n / 10) with
      | nil => exact absurd hd Nat.toDigits_ne_nil
      | cons c cs => rwa [hd] at hhead

theorem wholeDigits_decimalDigits (short : ReadError) (n : Nat) :
    wholeDigits short (decimalDigits n) = .ok (decimalDigits n, []) := by
  have hd := digits_of_run short (decimalDigits n) [] Nat.toDigits_ne_nil
    (isDigit_of_mem_decimalDigits n) (by simp)
  rw [List.append_nil] at hd
  refine (wholeDigits_eq_ok_iff _ _ _ _).mpr ⟨hd, ?_⟩
  intro c more he
  by_cases hn : 0 < n
  · exact head?_decimalDigits n hn (by rw [he]; rfl)
  · obtain rfl : n = 0 := by omega
    cases he

theorem quantity_decimalDigits (n : Nat) (h : n < Numeral.wordLimit) :
    quantity (decimalDigits n) = .ok (.whole n, []) := by
  have hnumeral : numeral .endOfText (decimalDigits n) =
      .ok (⟨false, decimalDigits n, none, none⟩, []) := by
    rw [numeral]
    · rw [unsigned, wholeDigits_decimalDigits, ok_bind]
      rfl
    · intro cs he
      have hminus := isDigit_of_mem_decimalDigits n '-' (by rw [he]; exact List.mem_cons_self)
      exact absurd hminus (by decide)
  rw [quantity, hnumeral, ok_bind]
  simp [Numeral.quantity?, takeWhole_decimalDigits n h]

theorem reads_natural (n : Nat) (h : n < Numeral.wordLimit) :
    Reads natural (decimalDigits n) n := by
  have hr := reads_number _ _ (quantity_decimalDigits n h)
  refine ⟨hr.starts, ?_⟩
  intro b rest hb hs
  rw [natural, hr.result b rest hb hs]
  rfl

def ReadsBack (x : Float32) : Prop :=
  read singleNumber (single x).compact = .ok x

instance (x : Float32) : Decidable (ReadsBack x) :=
  inferInstanceAs (Decidable (_ = _))

theorem isBlank_of_isDigit (c : Char) (h : c.isDigit = true) : isBlank c = false :=
  isBlank_of_startsNumber c (by simp [startsNumber, h])

theorem isBlank_of_mem_decimalDigits (n : Nat) (c : Char) (h : c ∈ decimalDigits n) :
    isBlank c = false :=
  isBlank_of_isDigit c (isDigit_of_mem_decimalDigits n c h)

theorem isBlank_of_mem_zeros (n : Nat) : ∀ c ∈ List.replicate n '0', isBlank c = false := by
  intro c hc
  rw [List.eq_of_mem_replicate hc]
  rfl

theorem isBlank_of_mem_decimalText (d : Number.Decimal) :
    ∀ c ∈ decimalText d, isBlank c = false := by
  have hdigits := isBlank_of_mem_decimalDigits d.digits
  have hsign : ∀ p : Prop, [Decidable p] → isBlank (if p then '-' else '+') = false := by
    intro p _
    split <;> rfl
  rw [decimalText]
  dsimp only
  generalize decimalDigits d.digits = digits at hdigits
  split
  · split
    · simp only [List.forall_mem_append]
      exact ⟨⟨hdigits, isBlank_of_mem_zeros _⟩, by simp [isBlank]⟩
    · split
      · rw [List.forall_mem_append, List.forall_mem_cons]
        exact ⟨fun c hc => hdigits c (List.mem_of_mem_take hc), rfl,
          fun c hc => hdigits c (List.mem_of_mem_drop hc)⟩
      · rw [List.cons_append, List.cons_append, List.forall_mem_cons, List.forall_mem_cons,
          List.forall_mem_append]
        exact ⟨rfl, rfl, isBlank_of_mem_zeros _, hdigits⟩
  · rw [List.forall_mem_append, List.forall_mem_cons, List.forall_mem_cons]
    refine ⟨?_, rfl, hsign _, isBlank_of_mem_decimalDigits _⟩
    split
    · rw [List.forall_mem_cons] at hdigits ⊢
      rw [List.forall_mem_cons]
      exact ⟨hdigits.1, rfl, hdigits.2⟩
    · exact hdigits

theorem isBlank_of_mem_singleText (x : Float32) : ∀ c ∈ singleText x, isBlank c = false := by
  rw [singleText]
  split
  · next negative significand exponent _ =>
    rw [List.forall_mem_append]
    constructor
    · cases negative <;> simp [isBlank]
    · split
      · simp [isBlank]
      · exact isBlank_of_mem_decimalText _
  · simp [nullText, isBlank]

theorem bind_error_ne_ok (x : Except ReadError α) (e : ReadError) (b : β) :
    (x >>= fun _ => .error e) ≠ .ok b := by
  intro h
  obtain ⟨_, _, he⟩ := (bind_eq_ok _ _ _).mp h
  cases he

theorem refuse_ne_ok (cs : List Char) (r : α × List Char) : refuse cs ≠ .ok r := by
  have herror : ∀ e : ReadError, (.error e : Except ReadError (α × List Char)) ≠ .ok r := by
    intro e h
    cases h
  rw [refuse]
  split
  · exact herror _
  · exact bind_error_ne_ok _ _ r
  · exact bind_error_ne_ok _ _ r
  · exact bind_error_ne_ok _ _ r
  · exact bind_error_ne_ok _ _ r
  · exact herror _
  · exact herror _
  · split
    · exact bind_error_ne_ok _ _ r
    · exact herror _

theorem quantity_of_number (cs : List Char) (hb : ∀ c ∈ cs, isBlank c = false) (q : Quantity)
    (rest : List Char) (h : number cs = .ok (q, rest)) : quantity cs = .ok (q, rest) := by
  cases cs with
  | nil => exact absurd h (refuse_ne_ok [] (q, rest))
  | cons c cs =>
    rw [number, skipBlank_cons c cs (hb c List.mem_cons_self)] at h
    dsimp only at h
    split at h
    · exact h
    · exact absurd h (refuse_ne_ok _ _)

/-- There are no blanks in the text of a number, so nothing of it is left over. -/
theorem quantity_of_readsBack (x : Float32) (h : ReadsBack x) :
    ∃ q, quantity (singleText x) = .ok (q, []) ∧ q.toSingle = x := by
  have hb := isBlank_of_mem_singleText x
  rw [ReadsBack, read, compact, String.toList_ofList, compactChars] at h
  obtain ⟨⟨y, rest⟩, hy, hread⟩ := (bind_eq_ok _ _ _).mp h
  obtain ⟨⟨q, mid⟩, hq, hsingle⟩ := (bind_eq_ok _ _ _).mp hy
  obtain ⟨rfl, rfl⟩ := Prod.mk.inj (Except.ok.inj hsingle)
  have hquantity := quantity_of_number _ hb q mid hq
  have hsuffix := (settles_quantity _ _ _ hquantity).1
  dsimp only at hread
  split at hread
  · next hempty =>
    cases mid with
    | nil => exact ⟨q, hquantity, Except.ok.inj hread⟩
    | cons c mid =>
      rw [skipBlank_cons c mid (hb c (hsuffix.subset List.mem_cons_self))] at hempty
      cases hempty
  · cases hread

theorem reads_single (x : Float32) (h : ReadsBack x) : Reads singleNumber (singleText x) x := by
  obtain ⟨q, hq, hx⟩ := quantity_of_readsBack x h
  have hr := reads_number _ _ hq
  refine ⟨hr.starts, ?_⟩
  intro b rest hb hs
  rw [singleNumber, hr.result b rest hb hs, ← hx]
  rfl

namespace Layout

variable {σ : Type} (l : Layout) (d : Nat)

theorem reads_nat (n : Nat) (h : n < Numeral.wordLimit) : Reads natural (l.chars d (.nat n)) n := by
  rw [l.chars_nat]
  exact reads_natural n h

theorem reads_single (x : Float32) (h : ReadsBack x) :
    Reads singleNumber (l.chars d (.single x)) x := by
  rw [l.chars_single]
  exact Json.reads_single x h

theorem sets_single (fields : List (Field σ)) (name : String) (required : Bool)
    (set : Float32 → σ → σ)
    (hf : fields.find? (·.name == name) = some ⟨name, required, Field.put singleNumber set⟩)
    (x : Float32) (h : ReadsBack x) :
    Sets fields (l.member d (name, .single x)) (name, set x) :=
  l.sets d fields name required singleNumber set hf _ x (l.reads_single (d + 1) x h)

end Layout

end CodeAtlas.Json
