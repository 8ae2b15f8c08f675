import CodeAtlas.Settings

namespace CodeAtlas

structure Preferences where
  isOpen : Bool
  copy : Settings

namespace Preferences

def ofSettings (s : Settings) : Preferences := ⟨false, s⟩

def reopen (_ : Preferences) (s : Settings) : Preferences := ⟨true, s⟩

inductive Button where
  | theme (t : Theme)
  | resetForces
  | apply
  | close

def button? : String → Option Button
  | "Latte" => some (.theme .latte)
  | "Frappé" => some (.theme .frappe)
  | "Macchiato" => some (.theme .macchiato)
  | "Mocha" => some (.theme .mocha)
  | "Reset layout defaults" => some .resetForces
  | "Apply" => some .apply
  | "Close" => some .close
  | _ => none

/-- Drawing the dialog brings the numbers of the copy into the ranges of their sliders. -/
def draw (p : Preferences) : Preferences :=
  if p.isOpen then { p with copy := p.copy.clamped } else p

def press (p : Preferences) : Button → Preferences × Option Settings
  | .theme t => ({ p with copy := { p.copy with theme := t } }, none)
  | .resetForces =>
    ({ p with copy := { p.copy with layout := { p.copy.layout with forces := .default } } }, none)
  | .apply => (p, some p.copy)
  | .close => ({ p with isOpen := false }, none)

end Preferences

structure PreferencesDesk where
  settings : Settings
  dialog : Preferences
  file : Option String

namespace PreferencesDesk

def ofSettings (s : Settings) : PreferencesDesk := ⟨s, .ofSettings s, none⟩

def openDialog (d : PreferencesDesk) : PreferencesDesk :=
  { d with dialog := (d.dialog.reopen d.settings).draw }

def redraw (d : PreferencesDesk) : PreferencesDesk :=
  { d with dialog := d.dialog.draw }

def replace (d : PreferencesDesk) (s : Settings) : PreferencesDesk :=
  { d with settings := s, dialog := d.dialog.draw }

/-- Click on the text of a button. Settings that are applied are also saved. The second result tells
whether any were. -/
def click (d : PreferencesDesk) (label : String) : PreferencesDesk × Bool :=
  if d.dialog.isOpen then
    match Preferences.button? label with
    | none => (d.redraw, false)
    | some b =>
      match d.dialog.draw.press b with
      | (dialog, some s) => (⟨s, dialog, some s.fileText⟩, true)
      | (dialog, none) => ({ d with dialog := dialog }, false)
  else (d, false)

/-- Whether saving the settings in use would leave the file as it is, if there is a file. -/
def saved? (d : PreferencesDesk) : Option Bool :=
  d.file.map (· == d.settings.fileText)

end PreferencesDesk

end CodeAtlas
