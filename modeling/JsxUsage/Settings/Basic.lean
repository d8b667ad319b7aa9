import JsxUsage.Catalog
import JsxUsage.Failure
import JsxUsage.Resolution
import JsxUsage.Text.Blank

/-!
# Settings

What an analysis looks for and how its result is written, with the defaults, the
rules for allowed values, and the changes that a command line makes.
-/

namespace JsxUsage

inductive OutputFormat where
  | mermaid
  | json
deriving Repr, DecidableEq, Inhabited

structure AnalysisSettings where
  rootComponent : String
  extensions : List String
  exclude : List String
  usageScope : UsageScope
  maxDepth : Nat
  /-- Whether files may be read at the same time; the result is the same. -/
  parallel : Bool
  strictParse : Bool
deriving Repr, Inhabited

structure OutputSettings where
  format : OutputFormat
  direction : String
deriving Repr, Inhabited

structure Settings where
  analysis : AnalysisSettings
  output : OutputSettings
deriving Repr, Inhabited

def AnalysisSettings.initial : AnalysisSettings where
  rootComponent := "App"
  extensions := ["js", "jsx", "ts", "tsx"]
  exclude := []
  usageScope := .declaration
  maxDepth := 64
  parallel := true
  strictParse := true

def OutputSettings.initial : OutputSettings where
  format := .mermaid
  direction := "TD"

def Settings.initial : Settings := ⟨AnalysisSettings.initial, OutputSettings.initial⟩

/-! ## Values with a fixed set of names -/

namespace UsageScope

def name : UsageScope -> String
  | declaration => "declaration"
  | file => "file"

def ofText (text : String) : Except Failure UsageScope :=
  if text == "declaration" || text == "decl" then .ok .declaration
  else if text == "file" then .ok .file
  else .error (.settings ("unknown usage scope: " ++ text))

end UsageScope

namespace OutputFormat

def name : OutputFormat -> String
  | mermaid => "mermaid"
  | json => "json"

def ofText (text : String) : Except Failure OutputFormat :=
  if text == "mermaid" || text == "mmd" then .ok .mermaid
  else if text == "json" then .ok .json
  else .error (.settings ("unknown output format: " ++ text))

end OutputFormat

/-! ## Allowed values -/

def directions : List String := ["TD", "TB", "LR", "RL", "BT"]

def depthCeiling : Nat := 1024

inductive SettingsFault where
  | emptyRoot
  | zeroDepth
  | excessiveDepth
  | noExtensions
  | pattern (fault : GlobFault)
  | unknownDirection
deriving Repr, DecidableEq, Inhabited

def SettingsFault.toFailure : SettingsFault -> Failure
  | emptyRoot => .settings "root_component cannot be empty"
  | zeroDepth => .settings "max_depth must be at least 1"
  | excessiveDepth => .settings ("max_depth cannot exceed " ++ toString depthCeiling)
  | noExtensions => .settings "at least one extension required"
  | pattern fault => .globPattern fault
  | unknownDirection => .settings ("direction must be one of " ++ ", ".intercalate directions)

namespace Settings

def fault? (s : Settings) : Option SettingsFault :=
  if Text.trim s.analysis.rootComponent == "" then some .emptyRoot
  else if s.analysis.maxDepth == 0 then some .zeroDepth
  else if depthCeiling < s.analysis.maxDepth then some .excessiveDepth
  else if s.analysis.extensions.isEmpty then some .noExtensions
  else
    match CatalogRule.readGlobs s.analysis.exclude with
    | .error fault => some (.pattern fault)
    | .ok _ =>
        if directions.contains s.output.direction then none else some .unknownDirection

def validate (s : Settings) : Except Failure Unit :=
  match s.fault? with
  | some fault => .error fault.toFailure
  | none => .ok ()

end Settings

/-! ## Changes -/

structure Overrides where
  root : Option String
  exclude : List String
  format : Option OutputFormat
  depth : Option Nat
  usageScope : Option UsageScope
  sequential : Bool
deriving Repr, Inhabited

def Overrides.none : Overrides := ⟨Option.none, [], Option.none, Option.none, Option.none, false⟩

/-- Change settings.  Exclusions are added to those that are there. -/
def Settings.override (s : Settings) (o : Overrides) : Settings where
  analysis := { s.analysis with
    rootComponent := o.root.getD s.analysis.rootComponent
    exclude := s.analysis.exclude ++ o.exclude
    usageScope := o.usageScope.getD s.analysis.usageScope
    maxDepth := o.depth.getD s.analysis.maxDepth
    parallel := s.analysis.parallel && !o.sequential }
  output := { s.output with format := o.format.getD s.output.format }

end JsxUsage
