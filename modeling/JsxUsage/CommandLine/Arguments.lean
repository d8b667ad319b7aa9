import JsxUsage.CommandLine.Options
import JsxUsage.Path
import JsxUsage.Settings.Basic

/-!
# Commands

The commands of the program and the arguments that they take.
-/

namespace JsxUsage
namespace CommandLine

inductive Command where
  | analyze (path : Path) (overrides : Overrides) (output config : Option Path)
  | components (path : Path) (config : Option Path) (exclude : List String)
  | version
deriving Repr, Inhabited

/-! ## Values -/

/-- A natural number of at most 64 bits, which may have a plus sign. -/
def naturalOf? (text : String) : Option Nat :=
  let digits :=
    match text.toList with
    | '+' :: rest => rest
    | cs => cs
  if digits.isEmpty || !digits.all Char.isDigit then none
  else
    let n := digits.foldl (fun n c => 10 * n + (c.toNat - 48)) 0
    if n ≤ 18446744073709551615 then some n else none

def readableBy {α : Type} (read : String -> Except Failure α) (text : String) : Bool :=
  match read text with
  | .ok _ => true
  | .error _ => false

def anyText : String -> Bool := fun _ => true

def pathText (text : String) : Bool := text != ""

/-! ## Options -/

def commonOptions : List OptionSpec :=
  [⟨"verbose", some 'v', .flag, anyText⟩, ⟨"quiet", some 'q', .flag, anyText⟩,
    ⟨"help", some 'h', .help, anyText⟩]

def frontOptions : List OptionSpec :=
  commonOptions ++ [⟨"version", some 'V', .version, anyText⟩]

def componentsOptions : List OptionSpec :=
  commonOptions ++
    [⟨"config", some 'c', .single, pathText⟩, ⟨"exclude", none, .repeated, anyText⟩]

def analyzeOptions : List OptionSpec :=
  componentsOptions ++
    [⟨"root", some 'r', .single, anyText⟩,
      ⟨"format", some 'f', .single, readableBy OutputFormat.ofText⟩,
      ⟨"output", some 'o', .single, pathText⟩,
      ⟨"depth", none, .single, fun text => (naturalOf? text).isSome⟩,
      ⟨"usage-scope", none, .single, readableBy UsageScope.ofText⟩,
      ⟨"sequential", none, .flag, anyText⟩]

/-! ## Commands -/

def commandNames : List String := ["analyze", "components", "version", "help"]

def frontForm : Form where
  options := frontOptions
  room := 0
  acceptsPlain := anyText
  ends := commandNames.contains

def pathForm (options : List OptionSpec) : Form where
  options := options
  room := 1
  acceptsPlain := pathText
  ends := fun _ => false

def bareForm (options : List OptionSpec) : Form where
  options := options
  room := 0
  acceptsPlain := anyText
  ends := fun _ => false

def scanPath (options : List OptionSpec) (args : List String) : Except Stop (Scan × Path) :=
  match scan (pathForm options) Scan.empty args with
  | .error stop => .error stop
  | .ok (s, _) =>
      match s.plain with
      | path :: _ => .ok (s, ⟨path⟩)
      | [] => .error .usage

def overridesOf (s : Scan) : Overrides where
  root := s.value? "root"
  exclude := s.values "exclude"
  format := (s.value? "format").bind fun text => (OutputFormat.ofText text).toOption
  depth := (s.value? "depth").bind naturalOf?
  usageScope := (s.value? "usage-scope").bind fun text => (UsageScope.ofText text).toOption
  sequential := s.has "sequential"

def commandOf (name : String) (args : List String) : Except Stop Command :=
  if name == "analyze" then do
    let (s, path) ← scanPath analyzeOptions args
    pure (.analyze path (overridesOf s) ((s.value? "output").map Path.mk)
      ((s.value? "config").map Path.mk))
  else if name == "components" then do
    let (s, path) ← scanPath componentsOptions args
    pure (.components path ((s.value? "config").map Path.mk) (s.values "exclude"))
  else if name == "version" then
    (scan (bareForm commonOptions) Scan.empty args).map fun _ => .version
  else .error .usage

def helpStop : List String -> Stop
  | [] => .help
  | [name] => if commandNames.contains name then .help else .usage
  | _ => .usage

def parse (args : List String) : Except Stop Command :=
  match scan frontForm Scan.empty args with
  | .error stop => .error stop
  | .ok (_, []) => .error .usage
  | .ok (_, name :: args) =>
      if name == "help" then .error (helpStop args) else commandOf name args

end CommandLine
end JsxUsage
