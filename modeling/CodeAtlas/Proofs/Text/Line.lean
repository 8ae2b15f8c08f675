import Mathlib.Data.List.DropRight
import CodeAtlas.Text.Line

namespace CodeAtlas.Text

def Blank (cs : List Char) : Prop :=
  ∀ c ∈ cs, isSpace c

instance (cs : List Char) : Decidable (Blank cs) :=
  List.decidableBAll (isSpace ·) cs

theorem trim_eq (cs : List Char) : trim cs = (cs.dropWhile isSpace).rdropWhile isSpace :=
  rfl

theorem exists_trim (cs : List Char) :
    ∃ lead trail, cs = lead ++ trim cs ++ trail ∧ Blank lead ∧ Blank trail := by
  refine ⟨cs.takeWhile isSpace, (cs.dropWhile isSpace).rtakeWhile isSpace, ?_, ?_, ?_⟩
  · rw [trim_eq, List.append_assoc, List.rdropWhile_append_rtakeWhile,
      List.takeWhile_append_dropWhile]
  · intro c hc
    exact List.mem_takeWhile_imp hc
  · intro c hc
    exact List.mem_rtakeWhile_imp hc

theorem trim_eq_nil_iff (cs : List Char) : trim cs = [] ↔ Blank cs := by
  constructor
  · intro h c hc
    obtain ⟨lead, trail, hcs, hlead, htrail⟩ := exists_trim cs
    rw [h, List.append_nil] at hcs
    rw [hcs, List.mem_append] at hc
    exact hc.elim (hlead c) (htrail c)
  · intro h
    rw [trim_eq, List.dropWhile_eq_nil_iff.mpr h, List.rdropWhile_nil]

theorem head?_trim (cs : List Char) (c : Char) (h : (trim cs).head? = some c) :
    isSpace c = false := by
  obtain ⟨t, ht⟩ := List.rdropWhile_prefix isSpace (l := cs.dropWhile isSpace)
  have hd : (cs.dropWhile isSpace).head? = some c := by
    rw [← ht, List.head?_append, ← trim_eq, h]
    rfl
  have hn := List.head?_dropWhile_not isSpace cs
  rw [hd] at hn
  simpa using hn

theorem getLast?_trim (cs : List Char) (c : Char) (h : (trim cs).getLast? = some c) :
    isSpace c = false := by
  have hne : trim cs ≠ [] := by
    intro he
    simp [he] at h
  have hn := List.rdropWhile_last_not isSpace (cs.dropWhile isSpace) hne
  rw [List.getLast?_eq_some_getLast hne, Option.some.injEq] at h
  rw [← h]
  exact Bool.eq_false_iff.mpr hn

theorem trimLeft_of_head? (cs : List Char) (h : ∀ c, cs.head? = some c → isSpace c = false) :
    trimLeft cs = cs := by
  cases cs with
  | nil => rfl
  | cons c cs => exact List.dropWhile_cons_of_neg (by simp [h c rfl])

@[simp] theorem trim_trim (cs : List Char) : trim (trim cs) = trim cs := by
  have hl : trimLeft (trim cs) = trim cs := trimLeft_of_head? _ (head?_trim cs)
  rw [trimLeft] at hl
  rw [trim_eq, hl, trim_eq, List.rdropWhile_idempotent]

theorem trim_concat (cs : List Char) (c : Char) (hc : isSpace c) : trim (cs ++ [c]) = trim cs := by
  rw [trim_eq, trim_eq, List.dropWhile_append]
  split
  · next h => simp [List.isEmpty_iff.mp h, hc]
  · exact List.rdropWhile_concat_pos isSpace _ c hc

theorem splitLines_eq_splitOn (cs : List Char) : splitLines cs = cs.splitOn '\n' := by
  induction cs with
  | nil => rw [List.splitOn_nil, splitLines]
  | cons c cs ih =>
    rw [List.splitOn_cons_eq_if_modifyHead, ← ih]
    cases hs : splitLines cs with
    | nil => exact absurd (ih.symm.trans hs) (List.splitOn_ne_nil '\n' cs)
    | cons line lines =>
      unfold splitLines
      rw [hs]
      by_cases hc : c = '\n'
      · simp [hc]
      · simp [hc]

@[simp] theorem trim_dropReturn (line : List Char) : trim (dropReturn line) = trim line := by
  rw [dropReturn]
  split
  · next h =>
    obtain ⟨start, rfl⟩ := List.getLast?_eq_some_iff.mp h
    rw [List.dropLast_concat, trim_concat start '\r' rfl]
  · rfl

/-- The pieces of a text between line feeds that are not blank, without the white space around
them. -/
def pieces (cs : List Char) : List (List Char) :=
  ((cs.splitOn '\n').map trim).filter (!·.isEmpty)

/-- Neither a carriage return at the end of a line nor an empty last line makes a difference. -/
theorem filter_map_trim_lines (cs : List Char) :
    ((lines cs).map trim).filter (!·.isEmpty) = pieces cs := by
  have hne : splitLines cs ≠ [] := by
    rw [splitLines_eq_splitOn]
    exact List.splitOn_ne_nil '\n' cs
  have hended : ((splitLines cs).dropLast.map dropReturn).map trim =
      (splitLines cs).dropLast.map trim := by
    rw [List.map_map]
    exact List.map_congr_left fun line _ => trim_dropReturn line
  have hlast := List.getLast?_eq_some_getLast hne
  rw [pieces, ← splitLines_eq_splitOn, lines]
  conv_rhs => rw [← List.dropLast_append_getLast hne]
  rw [hlast]
  cases (splitLines cs).getLast hne with
  | nil =>
    simp only [List.map_append, List.filter_append, hended]
    simp [trim, trimLeft]
  | cons c last => simp only [List.map_append, List.filter_append, hended]

theorem exists_mem_splitOn_iff (cs : List Char) (c : Char) :
    (∃ piece ∈ cs.splitOn '\n', c ∈ piece) ↔ c ∈ cs ∧ c ≠ '\n' := by
  induction cs with
  | nil => simp
  | cons d cs ih =>
    rw [List.splitOn_cons_eq_if_modifyHead]
    by_cases hd : d = '\n'
    · subst hd
      rw [if_pos (beq_self_eq_true _), List.exists_mem_cons_iff, ih, List.mem_cons]
      constructor
      · rintro (h | ⟨hc, hne⟩)
        · exact absurd h List.not_mem_nil
        · exact ⟨Or.inr hc, hne⟩
      · rintro ⟨rfl | hc, hne⟩
        · exact absurd rfl hne
        · exact Or.inr ⟨hc, hne⟩
    · rw [if_neg (by simpa using hd)]
      cases hs : cs.splitOn '\n' with
      | nil => exact absurd hs (List.splitOn_ne_nil '\n' cs)
      | cons line lines =>
        rw [hs, List.exists_mem_cons_iff] at ih
        rw [List.modifyHead_cons, List.exists_mem_cons_iff, List.mem_cons, List.mem_cons, or_assoc,
          ih]
        constructor
        · rintro (rfl | ⟨hc, hne⟩)
          · exact ⟨Or.inl rfl, hd⟩
          · exact ⟨Or.inr hc, hne⟩
        · rintro ⟨rfl | hc, hne⟩
          · exact Or.inl rfl
          · exact Or.inr ⟨hc, hne⟩

theorem mem_of_mem_trim (cs : List Char) (c : Char) (h : c ∈ trim cs) : c ∈ cs := by
  obtain ⟨lead, trail, hcs, _, _⟩ := exists_trim cs
  rw [hcs]
  exact List.mem_append_left _ (List.mem_append_right _ h)

theorem mem_pieces (cs piece : List Char) (h : piece ∈ pieces cs) :
    piece ≠ [] ∧ trim piece = piece ∧ '\n' ∉ piece := by
  obtain ⟨hm, hne⟩ := List.mem_filter.mp h
  obtain ⟨line, hline, rfl⟩ := List.mem_map.mp hm
  refine ⟨by simpa using hne, trim_trim line, ?_⟩
  intro hn
  exact ((exists_mem_splitOn_iff cs '\n').mp ⟨line, hline, mem_of_mem_trim line _ hn⟩).2 rfl

/-- What is not white space stands in some piece, since a line feed is white space. -/
theorem pieces_eq_nil_iff (cs : List Char) : pieces cs = [] ↔ Blank cs := by
  rw [pieces, List.filter_eq_nil_iff]
  constructor
  · intro h c hc
    by_cases hn : c = '\n'
    · subst hn
      rfl
    · obtain ⟨line, hline, hm⟩ := (exists_mem_splitOn_iff cs c).mpr ⟨hc, hn⟩
      have hnil : trim line = [] := by simpa using h _ (List.mem_map_of_mem hline)
      exact (trim_eq_nil_iff line).mp hnil c hm
  · intro h piece hp
    obtain ⟨line, hline, rfl⟩ := List.mem_map.mp hp
    have hblank : Blank line := by
      intro c hc
      exact h c ((exists_mem_splitOn_iff cs c).mp ⟨line, hline, hc⟩).1
    simp [(trim_eq_nil_iff line).mpr hblank]

end CodeAtlas.Text
