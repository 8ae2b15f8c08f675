import Mathlib
import CodeAtlas.Settings
import CodeAtlas.Proofs.Json.Acceptance
import CodeAtlas.Proofs.RoundTrip

namespace CodeAtlas

open Json

def Forces.numbers (f : Forces) : List Float32 :=
  [f.linkDistance, f.chargeStrength, f.collideRadius, f.theta, f.velocityDecay, f.alphaMin,
    f.alphaDecay]

def LayoutSettings.numbers (s : LayoutSettings) : List Float32 :=
  s.forces.numbers ++ [s.autoStopSeconds]

def Settings.numbers (s : Settings) : List Float32 :=
  s.uiScale :: s.fontSize :: s.sidebarWidth :: s.layout.numbers

section

variable (layout : Layout) (d : Nat)

theorem Forces.readsIff_toJson (f : Forces) :
    ReadsIff reader (layout.chars d f.toJson) (∀ x ∈ f.numbers, x.isFinite = true) := by
  have hlink := layout.setsIff_single d fields "link_distance" _ _ rfl f.linkDistance
  have hcharge := layout.setsIff_single d fields "charge_strength" _ _ rfl f.chargeStrength
  have hcollide := layout.setsIff_single d fields "collide_radius" _ _ rfl f.collideRadius
  have htheta := layout.setsIff_single d fields "theta" _ _ rfl f.theta
  have hvelocity := layout.setsIff_single d fields "velocity_decay" _ _ rfl f.velocityDecay
  have hmin := layout.setsIff_single d fields "alpha_min" _ _ rfl f.alphaMin
  have hdecay := layout.setsIff_single d fields "alpha_decay" _ _ rfl f.alphaDecay
  have hrecord : ReadsIff reader (layout.chars d f.toJson) _ :=
    layout.readsIff_record d fields default _ _
      (.cons hlink (.cons hcharge (.cons hcollide (.cons htheta (.cons hvelocity (.cons hmin
        (.cons hdecay .nil))))))) (by simp) (by simp [fields, Field.defaulted])
  exact hrecord.of_iff _ _ _ _ (by simp only [numbers, List.forall_mem_cons,
    List.not_mem_nil, false_implies, implies_true, and_true])

theorem LayoutSettings.readsIff_toJson (s : LayoutSettings) :
    ReadsIff reader (layout.chars d s.toJson) (∀ x ∈ s.numbers, x.isFinite = true) := by
  have hforces := layout.setsIff d fields "forces" _ _ _ rfl _ _
    (s.forces.readsIff_toJson layout _)
  have hstop := layout.setsIff_single d fields "auto_stop_secs" _ _ rfl s.autoStopSeconds
  have hrecord : ReadsIff reader (layout.chars d s.toJson) _ :=
    layout.readsIff_record d fields default _ _ (.cons hforces (.cons hstop .nil))
      (by simp) (by simp [fields, Field.defaulted])
  exact hrecord.of_iff _ _ _ _ (by simp only [numbers, List.forall_mem_cons,
    List.forall_mem_append, List.not_mem_nil, false_implies, implies_true, and_true])

theorem Settings.readsIff_toJson (s : Settings) :
    ReadsIff reader (layout.chars d s.toJson) (∀ x ∈ s.numbers, x.isFinite = true) := by
  have htheme := layout.setsIff d fields "theme" _ _ _ rfl _ _
    (s.theme.reads_toJson layout _).readsIff
  have hscale := layout.setsIff_single d fields "ui_scale" _ _ rfl s.uiScale
  have hfont := layout.setsIff_single d fields "font_size" _ _ rfl s.fontSize
  have hwidth := layout.setsIff_single d fields "sidebar_width" _ _ rfl s.sidebarWidth
  have hlayout := layout.setsIff d fields "layout" _ _ _ rfl _ _
    (s.layout.readsIff_toJson layout _)
  have hrecord : ReadsIff reader (layout.chars d s.toJson) _ :=
    layout.readsIff_record d fields default _ _
      (.cons htheme (.cons hscale (.cons hfont (.cons hwidth (.cons hlayout .nil)))))
      (by simp) (by simp [fields, Field.defaulted])
  exact hrecord.of_iff _ _ _ _ (by simp only [numbers, List.forall_mem_cons,
    List.not_mem_nil, false_implies, implies_true, and_true, true_and])

end

namespace Settings

theorem ofFile?_eq_ok_iff (text : String) (s : Settings) :
    ofFile? (some text) = .ok s ↔ read reader text = .ok s := by
  rw [ofFile?]
  cases read reader text with
  | ok s' => simp
  | error e => simp

theorem fileText_readable_iff (s : Settings) :
    (∃ s', ofFile? (some s.fileText) = .ok s') ↔ ∀ x ∈ s.numbers, x.isFinite = true := by
  simp only [ofFile?_eq_ok_iff]
  exact (s.readsIff_toJson prettyLayout 0).read_iff

theorem load_of_not_readable (text : String) (h : ¬ ∃ s, ofFile? (some text) = .ok s) :
    load (some text) = default := by
  rw [load]
  cases hs : ofFile? (some text) with
  | ok s => exact absurd ⟨s, hs⟩ h
  | error e => rfl

/-- Saved settings can be read again if and only if every number in them is finite, and else the
next start finds nothing to read and falls back on the default. -/
theorem saved_settings_readable (s : Settings) :
    ((∃ s', ofFile? (some s.fileText) = .ok s') ↔ ∀ x ∈ s.numbers, x.isFinite = true) ∧
    ((∃ x ∈ s.numbers, x.isFinite = false) → load (some s.fileText) = default) := by
  refine ⟨s.fileText_readable_iff, ?_⟩
  rintro ⟨x, hx, hinfinite⟩
  apply load_of_not_readable
  rw [fileText_readable_iff]
  intro hall
  exact absurd (hall x hx) (Bool.eq_false_iff.mp hinfinite)

theorem exists_of_toOption (text : String) (p : Settings → Bool)
    (h : (ofFile? (some text)).toOption.map p = some true) :
    ∃ s, ofFile? (some text) = .ok s ∧ p s = true := by
  cases hs : ofFile? (some text) with
  | error e =>
    rw [hs] at h
    cases h
  | ok s =>
    rw [hs] at h
    exact ⟨s, rfl, Option.some.inj h⟩

theorem saved_settings_readable_widest :
    ∃ s, ofFile? (some ("\x7b\"sidebar_width\":3.4028235e38,\"layout\":" ++
        "\x7b\"forces\":\x7b\"alpha_decay\":0.02\x7d\x7d\x7d")) = .ok s ∧
      ∃ s', ofFile? (some s.fileText) = .ok s' := by
  obtain ⟨s, hs, hfinite⟩ := exists_of_toOption
    ("\x7b\"sidebar_width\":3.4028235e38,\"layout\":" ++
      "\x7b\"forces\":\x7b\"alpha_decay\":0.02\x7d\x7d\x7d")
    (fun s => s.numbers.all (·.isFinite)) (by decide +kernel)
  exact ⟨s, hs, (saved_settings_readable s).1.mpr (List.all_eq_true.mp hfinite)⟩

/-- A number that only a double can hold is read, and with it all settings are lost. -/
theorem settings_lost_after_wide_number :
    ∃ s, ofFile? (some "\x7b\"ui_scale\":1e39\x7d") = .ok s ∧
      (∀ s', ofFile? (some s.fileText) ≠ .ok s') ∧ load (some s.fileText) = default := by
  obtain ⟨s, hs, hinfinite⟩ := exists_of_toOption "\x7b\"ui_scale\":1e39\x7d"
    (fun s => !s.uiScale.isFinite) (by decide +kernel)
  have hno : ¬ ∃ s', ofFile? (some s.fileText) = .ok s' := by
    rw [fileText_readable_iff]
    intro hall
    have hfinite := hall s.uiScale List.mem_cons_self
    rw [hfinite] at hinfinite
    cases hinfinite
  exact ⟨s, hs, not_exists.mp hno, load_of_not_readable _ hno⟩

end Settings

end CodeAtlas
