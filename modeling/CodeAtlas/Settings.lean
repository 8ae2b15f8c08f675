import CodeAtlas.Json.Value
import CodeAtlas.Json.Record
import CodeAtlas.Layout.Forces
import CodeAtlas.Time

namespace CodeAtlas

namespace Forces

def toJson (f : Forces) : Json :=
  .obj [("link_distance", .single f.linkDistance), ("charge_strength", .single f.chargeStrength),
    ("collide_radius", .single f.collideRadius), ("theta", .single f.theta),
    ("velocity_decay", .single f.velocityDecay), ("alpha_min", .single f.alphaMin),
    ("alpha_decay", .single f.alphaDecay)]

def fields : List (Json.Field Forces) :=
  [.defaulted "link_distance" Json.singleNumber fun v f => { f with linkDistance := v },
    .defaulted "charge_strength" Json.singleNumber fun v f => { f with chargeStrength := v },
    .defaulted "collide_radius" Json.singleNumber fun v f => { f with collideRadius := v },
    .defaulted "theta" Json.singleNumber fun v f => { f with theta := v },
    .defaulted "velocity_decay" Json.singleNumber fun v f => { f with velocityDecay := v },
    .defaulted "alpha_min" Json.singleNumber fun v f => { f with alphaMin := v },
    .defaulted "alpha_decay" Json.singleNumber fun v f => { f with alphaDecay := v }]

def reader : Json.Reader Forces :=
  Json.record fields default

end Forces

inductive Theme where
  | latte
  | frappe
  | macchiato
  | mocha
deriving DecidableEq

namespace Theme

def name : Theme → String
  | latte => "Latte"
  | frappe => "Frappe"
  | macchiato => "Macchiato"
  | mocha => "Mocha"

def toJson (t : Theme) : Json := .str t.name

/-- The lightest and the darkest scheme have a second name. -/
def reader : Json.Reader Theme :=
  Json.choice [("Latte", .bare .latte), ("Light", .bare .latte), ("Frappe", .bare .frappe),
    ("Macchiato", .bare .macchiato), ("Mocha", .bare .mocha), ("Dark", .bare .mocha)]

def smallSize (fontSize : Float32) : Float32 := fontSize * 0.85

def headingSize (fontSize : Float32) : Float32 := fontSize * 1.25

end Theme

structure LayoutSettings where
  forces : Forces
  autoStopSeconds : Float32
deriving BEq

namespace LayoutSettings

def default : LayoutSettings := ⟨.default, 3⟩

instance : Inhabited LayoutSettings := ⟨default⟩

inductive TimeError where
  | outOfRange

def TimeError.message : TimeError → String
  | .outOfRange => "cannot convert float seconds to Duration: value is either too big or NaN"

/-- The time after which the layout stops, at once if the setting is negative. -/
def autoStop (s : LayoutSettings) : Except TimeError Duration :=
  match Duration.ofSeconds? (Number.greatest s.autoStopSeconds 0) with
  | some d => .ok d
  | none => .error .outOfRange

def toJson (s : LayoutSettings) : Json :=
  .obj [("forces", s.forces.toJson), ("auto_stop_secs", .single s.autoStopSeconds)]

def fields : List (Json.Field LayoutSettings) :=
  [.defaulted "forces" Forces.reader fun v s => { s with forces := v },
    .defaulted "auto_stop_secs" Json.singleNumber fun v s => { s with autoStopSeconds := v }]

def reader : Json.Reader LayoutSettings :=
  Json.record fields default

end LayoutSettings

structure Settings where
  theme : Theme
  uiScale : Float32
  fontSize : Float32
  sidebarWidth : Float32
  layout : LayoutSettings
deriving BEq

namespace Settings

def default : Settings := ⟨.latte, 1, 14, 280, .default⟩

def toJson (s : Settings) : Json :=
  .obj [("theme", s.theme.toJson), ("ui_scale", .single s.uiScale),
    ("font_size", .single s.fontSize), ("sidebar_width", .single s.sidebarWidth),
    ("layout", s.layout.toJson)]

def fields : List (Json.Field Settings) :=
  [.defaulted "theme" Theme.reader fun v s => { s with theme := v },
    .defaulted "ui_scale" Json.singleNumber fun v s => { s with uiScale := v },
    .defaulted "font_size" Json.singleNumber fun v s => { s with fontSize := v },
    .defaulted "sidebar_width" Json.singleNumber fun v s => { s with sidebarWidth := v },
    .defaulted "layout" LayoutSettings.reader fun v s => { s with layout := v }]

def reader : Json.Reader Settings :=
  Json.record fields default

inductive FileError where
  | unreadable
  | unfit (cause : Json.ReadError)

def FileError.message (path : String) : FileError → String
  | .unreadable => "Failed to read settings file " ++ path
  | .unfit _ => "Failed to parse settings file " ++ path

def ofFile? : Option String → Except FileError Settings
  | none => .error .unreadable
  | some text =>
    match Json.read reader text with
    | .ok s => .ok s
    | .error e => .error (.unfit e)

/-- The settings to start with; a file that is missing or unfit stands for the default. -/
def load (content : Option String) : Settings :=
  match ofFile? content with
  | .ok s => s
  | .error _ => default

def fileText (s : Settings) : String :=
  s.toJson.pretty

end Settings

structure Slider where
  label : String
  value : Float32
  low : Float32
  high : Float32
  logarithmic : Bool

namespace Slider

def inRange (s : Slider) : Bool := Number.inRange s.low s.high s.value

def ofForces (f : Forces) : List Slider :=
  [⟨"Link distance", f.linkDistance, 10, 500, false⟩,
    ⟨"Charge", f.chargeStrength, -2000, 0, false⟩,
    ⟨"Collision radius", f.collideRadius, 0, 200, false⟩,
    ⟨"Barnes-Hut theta", f.theta, 0.1, 2, false⟩,
    ⟨"Velocity decay", f.velocityDecay, 0.05, 0.95, false⟩,
    ⟨"Alpha min", f.alphaMin, 0.0001, 0.1, true⟩,
    ⟨"Alpha decay", f.alphaDecay, 0.001, 0.2, true⟩]

end Slider

namespace Forces

def clampedBy (clamp : (low high x : Float32) → Float32) (f : Forces) : Forces where
  linkDistance := clamp 10 500 f.linkDistance
  chargeStrength := clamp (-2000) 0 f.chargeStrength
  collideRadius := clamp 0 200 f.collideRadius
  theta := clamp 0.1 2 f.theta
  velocityDecay := clamp 0.05 0.95 f.velocityDecay
  alphaMin := clamp 0.0001 0.1 f.alphaMin
  alphaDecay := clamp 0.001 0.2 f.alphaDecay

def clamped : Forces → Forces := clampedBy Number.clamp

end Forces

/-- Bring every number that has a slider into its range, as the sliders do when they are drawn. -/
def Settings.clamped (s : Settings) : Settings :=
  { s with
    uiScale := Number.clampSigned 0.5 2 s.uiScale
    fontSize := Number.clampSigned 8 24 s.fontSize
    layout := ⟨s.layout.forces.clampedBy Number.clampSigned,
      Number.clampSigned 0.5 30 s.layout.autoStopSeconds⟩ }

end CodeAtlas
