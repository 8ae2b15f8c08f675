import CodeAtlas.CommandLine.Report
import CodeAtlas.Event
import CodeAtlas.Settings
import CodeAtlas.Proofs.Graph.Forest
import CodeAtlas.Proofs.Json.Number

namespace CodeAtlas

open Json

def Restored {α : Type} (reader : Reader α) (toJson : α → Json) (a : α) : Prop :=
  read reader (toJson a).compact = .ok a ∧ read reader (toJson a).pretty = .ok a

theorem restored_of_reads {α : Type} (reader : Reader α) (toJson : α → Json) (a : α)
    (h : ∀ layout : Layout, Reads reader (layout.chars 0 (toJson a)) a) :
    Restored reader toJson a := by
  have hc := read_of_reads reader _ [] a (h compactLayout) blank_nil
  have hp := read_of_reads reader _ [] a (h prettyLayout) blank_nil
  rw [List.append_nil] at hc hp
  exact ⟨hc, hp⟩

section

variable (layout : Layout) (d : Nat)

theorem NodeKind.reads_toJson (k : NodeKind) : Reads reader (layout.chars d k.toJson) k := by
  cases k with
  | folder => exact layout.reads_bare d _ "folder" _ rfl
  | function => exact layout.reads_bare d _ "function" _ rfl

def Node.Exact (n : Node) : Prop :=
  n.level < Numeral.wordLimit

theorem Node.reads_toJson (n : Node) (h : n.Exact) : Reads reader (layout.chars d n.toJson) n := by
  obtain ⟨id, name, kind, level, group⟩ := n
  have hid := layout.sets d fields "id" _ _ _ rfl _ _ (layout.reads_str _ id)
  have hname := layout.sets d fields "name" _ _ _ rfl _ _ (layout.reads_str _ name)
  have hkind := layout.sets d fields "type" _ _ _ rfl _ _ (kind.reads_toJson layout _)
  have hlevel := layout.sets d fields "level" _ _ _ rfl _ _ (layout.reads_nat _ level h)
  cases group with
  | none =>
    exact layout.reads_record d fields _ _ _
      (.cons hid (.cons hname (.cons hkind (.cons hlevel .nil))))
      (by simp) (by simp [fields, Field.needed, Field.defaulted])
  | some group =>
    have hg := (layout.reads_str (d + 1) group).optional _ _ _ (by simp [layout.chars_str, quote])
    have hgroup := layout.sets d fields "group" _ _ _ rfl _ _ hg
    exact layout.reads_record d fields _ _ _
      (.cons hid (.cons hname (.cons hkind (.cons hlevel (.cons hgroup .nil)))))
      (by simp) (by simp [fields, Field.needed, Field.defaulted])

theorem Edge.reads_toJson (e : Edge) : Reads reader (layout.chars d e.toJson) e := by
  have hsource := layout.sets d fields "source" _ _ _ rfl _ _ (layout.reads_str _ e.source)
  have htarget := layout.sets d fields "target" _ _ _ rfl _ _ (layout.reads_str _ e.target)
  exact layout.reads_record d fields _ _ _ (.cons hsource (.cons htarget .nil))
    (by simp) (by simp [fields, Field.needed])

namespace Graph

def listsReader : Reader (List Node × List Edge) :=
  record [.needed "nodes" (list Node.reader) fun nodes p => (nodes, p.2),
    .needed "edges" (list Edge.reader) fun edges p => (p.1, edges)] ([], [])

theorem reads_toJson (g : Graph) (h : ∀ n ∈ g.nodes, n.Exact) :
    Reads listsReader (layout.chars d g.toJson) (g.nodes.toList, g.edges.toList) := by
  have hnodes := layout.reads_list (d + 1) Node.reader Node.toJson g.nodes.toList
    fun n hn => n.reads_toJson layout _ (h n (Array.mem_toList_iff.mp hn))
  have hedges := layout.reads_list (d + 1) Edge.reader Edge.toJson g.edges.toList
    fun e _ => e.reads_toJson layout _
  exact layout.reads_pair d "nodes" "edges" (by decide) _ _ _ _ _ _ _ hnodes hedges

/-- No node lies deeper than the functions of some folder. -/
theorem level_le_segments (c : Codebase) (n : Node) (h : n ∈ (ofCodebase c).nodes) :
    ∃ path ∈ c.folders.keys, n.level ≤ (Path.segments path).length := by
  obtain ⟨e, he, h⟩ := List.mem_flatMap.mp (mem_nodeSequence c n h)
  refine ⟨e.1, List.mem_map_of_mem he, ?_⟩
  rcases List.mem_append.mp h with h | h
  · obtain ⟨i, hi, rfl⟩ := List.mem_mapIdx.mp h
    exact hi.le
  · obtain ⟨name, _, rfl⟩ := List.mem_map.mp h
    exact le_rfl

end Graph

end

theorem CommandLine.read_graph (c : Codebase)
    (hc : ∀ path ∈ c.folders.keys, (Path.segments path).length < Numeral.wordLimit)
    (pretty : Bool) :
    read Graph.listsReader (graph c pretty) =
      .ok ((Graph.ofCodebase c).nodes.toList, (Graph.ofCodebase c).edges.toList) := by
  have hexact : ∀ n ∈ (Graph.ofCodebase c).nodes, n.Exact := by
    intro n hn
    obtain ⟨path, hp, hle⟩ := Graph.level_le_segments c n hn
    exact hle.trans_lt (hc path hp)
  have hlines : ∀ cs : List Char, unlines [String.ofList cs] = String.ofList (cs ++ ['\n']) := by
    intro cs
    rw [String.ofList_append]
    rfl
  have hend : Blank ['\n'] := by simp [Blank, isBlank]
  rw [graph]
  cases pretty with
  | false =>
    exact (congrArg _ (hlines _)).trans
      (read_of_reads _ _ _ _ (Graph.reads_toJson compactLayout 0 _ hexact) hend)
  | true =>
    exact (congrArg _ (hlines _)).trans
      (read_of_reads _ _ _ _ (Graph.reads_toJson prettyLayout 0 _ hexact) hend)

namespace Event

def Exact : Event → Prop
  | viewportResized width height => ReadsBack width ∧ ReadsBack height
  | layoutStopped ticks => ticks < Numeral.wordLimit
  | mappingLoaded nodes edges => nodes < Numeral.wordLimit ∧ edges < Numeral.wordLimit
  | _ => True

variable {α β : Type} [Inhabited α] [Inhabited β] (layout : Layout) (d : Nat)

theorem reads_reading1 (cases : List (String × Case Event)) (name key : String) (value : Reader α)
    (make : α → Event) (h : cases.lookup name = some (reading1 key value make)) (j : Json) (a : α)
    (hv : Reads value (layout.chars (d + 2) j) a) :
    Reads (choice cases) (layout.chars d (.obj [(name, .obj [(key, j)])])) (make a) := by
  have hset := layout.sets (d + 1) [.needed key value fun a _ => a] key true value (fun a _ => a)
    (by simp [Field.needed]) j a hv
  have hr := layout.reads_record (d + 1) _ default _ _ (.cons hset .nil)
    (by simp) (by simp [Field.needed])
  exact layout.reads_choice d cases name _ (make a) h _ (hr.map _ _ _ make)

theorem reads_reading2 (cases : List (String × Case Event)) (name key₁ key₂ : String)
    (hk : key₁ ≠ key₂) (value₁ : Reader α) (value₂ : Reader β) (make : α → β → Event)
    (h : cases.lookup name = some (reading2 key₁ value₁ key₂ value₂ make)) (j₁ j₂ : Json) (a : α)
    (b : β) (ha : Reads value₁ (layout.chars (d + 2) j₁) a)
    (hb : Reads value₂ (layout.chars (d + 2) j₂) b) :
    Reads (choice cases) (layout.chars d (.obj [(name, .obj [(key₁, j₁), (key₂, j₂)])]))
      (make a b) := by
  have hr := layout.reads_pair (d + 1) key₁ key₂ hk value₁ value₂ default j₁ j₂ a b ha hb
  exact layout.reads_choice d cases name _ (make a b) h _ (hr.map _ _ _ fun p => make p.1 p.2)

theorem reads_origin (o : Origin) : Reads Origin.reader (layout.chars d o.toJson) o := by
  cases o with
  | graph => exact layout.reads_bare d _ "Graph" _ rfl
  | sidebar => exact layout.reads_bare d _ "Sidebar" _ rfl

theorem reads_toJson (e : Event) (h : e.Exact) : Reads reader (layout.chars d e.toJson) e := by
  cases e with
  | highlightNode id =>
    exact reads_reading1 layout d _ "HighlightNode" "id" _ _ rfl _ _ (layout.reads_str _ id)
  | resetHighlight => exact layout.reads_bare d _ "ResetHighlight" _ rfl
  | recenterNode id origin =>
    exact reads_reading2 layout d _ "RecenterNode" "id" "origin" (by decide) _ _ _ rfl _ _ _ _
      (layout.reads_str _ id) (reads_origin layout _ origin)
  | showFunctionDetail folder name =>
    exact reads_reading2 layout d _ "ShowFunctionDetail" "folder" "name" (by decide) _ _ _ rfl
      _ _ _ _ (layout.reads_str _ folder) (layout.reads_str _ name)
  | closeDetail => exact layout.reads_bare d _ "CloseDetail" _ rfl
  | searchChanged query =>
    exact reads_reading1 layout d _ "SearchChanged" "query" _ _ rfl _ _ (layout.reads_str _ query)
  | viewportResized width height =>
    exact reads_reading2 layout d _ "ViewportResized" "width" "height" (by decide) _ _ _ rfl
      _ _ _ _ (layout.reads_single _ width h.1) (layout.reads_single _ height h.2)
  | layoutStopped ticks =>
    exact reads_reading1 layout d _ "LayoutStopped" "ticks" _ _ rfl _ _
      (layout.reads_nat _ ticks h)
  | mappingLoaded nodes edges =>
    exact reads_reading2 layout d _ "MappingLoaded" "nodes" "edges" (by decide) _ _ _ rfl _ _ _ _
      (layout.reads_nat _ nodes h.1) (layout.reads_nat _ edges h.2)
  | mappingFailed error =>
    exact reads_reading1 layout d _ "MappingFailed" "error" _ _ rfl _ _ (layout.reads_str _ error)

end Event

section

variable (layout : Layout) (d : Nat)

structure Forces.Exact (f : Forces) : Prop where
  linkDistance : ReadsBack f.linkDistance
  chargeStrength : ReadsBack f.chargeStrength
  collideRadius : ReadsBack f.collideRadius
  theta : ReadsBack f.theta
  velocityDecay : ReadsBack f.velocityDecay
  alphaMin : ReadsBack f.alphaMin
  alphaDecay : ReadsBack f.alphaDecay

theorem Forces.reads_toJson (f : Forces) (h : f.Exact) :
    Reads reader (layout.chars d f.toJson) f := by
  have hlink := layout.sets_single d fields "link_distance" _ _ rfl _ h.linkDistance
  have hcharge := layout.sets_single d fields "charge_strength" _ _ rfl _ h.chargeStrength
  have hcollide := layout.sets_single d fields "collide_radius" _ _ rfl _ h.collideRadius
  have htheta := layout.sets_single d fields "theta" _ _ rfl _ h.theta
  have hvelocity := layout.sets_single d fields "velocity_decay" _ _ rfl _ h.velocityDecay
  have hmin := layout.sets_single d fields "alpha_min" _ _ rfl _ h.alphaMin
  have hdecay := layout.sets_single d fields "alpha_decay" _ _ rfl _ h.alphaDecay
  exact layout.reads_record d fields default _ _
    (.cons hlink (.cons hcharge (.cons hcollide (.cons htheta (.cons hvelocity (.cons hmin
      (.cons hdecay .nil))))))) (by simp) (by simp [fields, Field.defaulted])

structure LayoutSettings.Exact (s : LayoutSettings) : Prop where
  forces : s.forces.Exact
  autoStopSeconds : ReadsBack s.autoStopSeconds

theorem LayoutSettings.reads_toJson (s : LayoutSettings) (h : s.Exact) :
    Reads reader (layout.chars d s.toJson) s := by
  have hforces := layout.sets d fields "forces" _ _ _ rfl _ _
    (s.forces.reads_toJson layout _ h.forces)
  have hstop := layout.sets_single d fields "auto_stop_secs" _ _ rfl _ h.autoStopSeconds
  exact layout.reads_record d fields default _ _ (.cons hforces (.cons hstop .nil))
    (by simp) (by simp [fields, Field.defaulted])

theorem Theme.reads_toJson (t : Theme) : Reads reader (layout.chars d t.toJson) t := by
  cases t with
  | latte => exact layout.reads_bare d _ "Latte" _ rfl
  | frappe => exact layout.reads_bare d _ "Frappe" _ rfl
  | macchiato => exact layout.reads_bare d _ "Macchiato" _ rfl
  | mocha => exact layout.reads_bare d _ "Mocha" _ rfl

structure Settings.Exact (s : Settings) : Prop where
  uiScale : ReadsBack s.uiScale
  fontSize : ReadsBack s.fontSize
  sidebarWidth : ReadsBack s.sidebarWidth
  layout : s.layout.Exact

theorem Settings.reads_toJson (s : Settings) (h : s.Exact) :
    Reads reader (layout.chars d s.toJson) s := by
  have htheme := layout.sets d fields "theme" _ _ _ rfl _ _ (s.theme.reads_toJson layout _)
  have hscale := layout.sets_single d fields "ui_scale" _ _ rfl _ h.uiScale
  have hfont := layout.sets_single d fields "font_size" _ _ rfl _ h.fontSize
  have hwidth := layout.sets_single d fields "sidebar_width" _ _ rfl _ h.sidebarWidth
  have hlayout := layout.sets d fields "layout" _ _ _ rfl _ _
    (s.layout.reads_toJson layout _ h.layout)
  exact layout.reads_record d fields default _ _
    (.cons htheme (.cons hscale (.cons hfont (.cons hwidth (.cons hlayout .nil)))))
    (by simp) (by simp [fields, Field.defaulted])

end

theorem Settings.ofFile?_fileText (s : Settings) (h : Restored reader toJson s) :
    ofFile? (some s.fileText) = .ok s := by
  rw [ofFile?, fileText, h.2]

/-- Kinds, nodes, edges, events and settings are read back from both of their texts, provided that
their numbers are: whole numbers have to fit in 64 bits. So the lists of nodes and edges that a
command reports are those of the graph, and a settings file holds the settings that were saved. -/
theorem documents_restored :
    (∀ k : NodeKind, Restored NodeKind.reader NodeKind.toJson k) ∧
    (∀ n : Node, n.Exact → Restored Node.reader Node.toJson n) ∧
    (∀ e : Edge, Restored Edge.reader Edge.toJson e) ∧
    (∀ e : Event, e.Exact → Restored Event.reader Event.toJson e) ∧
    (∀ s : Settings, s.Exact → Restored Settings.reader Settings.toJson s ∧
      Settings.ofFile? (some s.fileText) = .ok s) ∧
    ∀ c : Codebase,
      (∀ path ∈ c.folders.keys, (Path.segments path).length < Numeral.wordLimit) →
      ∀ file pretty, ∃ text, CommandLine.report c (.graph file pretty) = .ok text ∧
        read Graph.listsReader text =
          .ok ((Graph.ofCodebase c).nodes.toList, (Graph.ofCodebase c).edges.toList) := by
  refine ⟨?_, ?_, ?_, ?_, ?_, ?_⟩
  · intro k
    exact restored_of_reads _ _ k fun layout => k.reads_toJson layout 0
  · intro n h
    exact restored_of_reads _ _ n fun layout => n.reads_toJson layout 0 h
  · intro e
    exact restored_of_reads _ _ e fun layout => e.reads_toJson layout 0
  · intro e h
    exact restored_of_reads _ _ e fun layout => e.reads_toJson layout 0 h
  · intro s h
    have hs := restored_of_reads _ Settings.toJson s fun layout => s.reads_toJson layout 0 h
    exact ⟨hs, s.ofFile?_fileText hs⟩
  · intro c hc file pretty
    exact ⟨_, rfl, CommandLine.read_graph c hc pretty⟩

def gapped : Codebase :=
  ⟨⟨[("a//b", ⟨[("\"f\"", ⟨none, []⟩)], by decide⟩)], by decide⟩⟩

def tuned : Settings :=
  ⟨.mocha, 1.1, 14, 1e20, ⟨⟨60, -0.0, 30, 0.9, 0.4, 1e-7, 1e-45⟩, 3⟩⟩

/-- Among the numbers are the largest whole number, the smallest positive one and minus zero. -/
theorem documents_restored_extreme :
    Restored Node.reader Node.toJson ⟨"a/f", "f", .function, 18446744073709551615, some "a"⟩ ∧
      Restored Event.reader Event.toJson (.viewportResized 1e-45 0.1) ∧
      Settings.ofFile? (some tuned.fileText) = .ok tuned ∧
      ∃ text, CommandLine.report gapped (.graph "map.json" true) = .ok text ∧
        read Graph.listsReader text =
          .ok ((Graph.ofCodebase gapped).nodes.toList,
            (Graph.ofCodebase gapped).edges.toList) := by
  obtain ⟨_, hnode, _, hevent, hsettings, hgraph⟩ := documents_restored
  have htuned : tuned.Exact := by
    refine ⟨?_, ?_, ?_, ⟨?_, ?_, ?_, ?_, ?_, ?_, ?_⟩, ?_⟩
    all_goals decide +kernel
  refine ⟨?_, ?_, ?_, ?_⟩
  · exact hnode _ (by decide +kernel : (18446744073709551615 : Nat) < Numeral.wordLimit)
  · exact hevent _ ⟨by decide +kernel, by decide +kernel⟩
  · exact (hsettings tuned htuned).2
  · exact hgraph gapped (by decide) "map.json" true

end CodeAtlas
