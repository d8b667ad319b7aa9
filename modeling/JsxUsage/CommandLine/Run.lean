import JsxUsage.Analysis
import JsxUsage.CommandLine.Arguments
import JsxUsage.Settings.File

/-!
# Running commands

What a command line does in a file tree: what it prints, the status with which
it ends, and the file that it writes.  A command goes step by step.  A step that
fails ends the command, and what the steps before it have printed and written
stays.
-/

namespace JsxUsage
namespace CommandLine

def defaultSettingsFile : Path := ⟨"component-graph.toml"⟩

def versionLine : String := "component-graph 0.1.0\n"

def helpText : String :=
  "Infer React component composition trees from a source tree\n\n" ++
    "Usage: component-graph [OPTIONS] <COMMAND>\n\n" ++
    "Commands:\n" ++
    "  analyze     Build the component tree and print it as a graph\n" ++
    "  components  List every detected component\n" ++
    "  version     Show version information\n"

structure World where
  stdout : String
  written : List (Path × String)
  tree : FileTree
deriving Inhabited

abbrev Action := ExceptT Failure (StateM World)

structure Outcome where
  exit : Nat
  stdout : String
  errorLine : Option String
  written : List (Path × String)
  tree : FileTree
deriving Inhabited

def loadSettings (t : FileTree) (config : Option Path) : Except Failure Settings :=
  Settings.loadOrInitial t (config.getD defaultSettingsFile)

def settingsFile? : Command -> Option Path
  | .analyze _ _ _ config => some (config.getD defaultSettingsFile)
  | .components _ config _ => some (config.getD defaultSettingsFile)
  | .version => none

/-- The other paths that a command looks at: its project, and the file that it
writes. -/
def projectPaths : Command -> List Path
  | .analyze path _ output _ => path :: output.toList
  | .components path _ _ => [path]
  | .version => []

/-- The line of a component: its name, its file, and a mark if another component
owns the name. -/
def componentLine (a : Analysis) (d : Definition) : String :=
  d.name ++ "\t" ++ (a.relative d.file).text ++
    (if a.registry.isShadowed d.id then "\t(shadowed)" else "") ++ "\n"

/-!
## Actions

An action asks the tree, prints and writes.  The first failure ends it, and what it did
before stays done.
-/

namespace Action

def ask {α : Type} (question : FileTree -> Except Failure α) : Action α := do
  match question (← get).tree with
  | .ok answer => pure answer
  | .error f => throw f

def print (text : String) : Action Unit :=
  modify fun w => { w with stdout := w.stdout ++ text }

def write (file : Path) (text : String) : Action Unit := do
  match (← get).tree.writeText file text with
  | .ok tree => modify fun w => { w with tree, written := w.written ++ [(file, text)] }
  | .error error => throw (.io error.message)

end Action

def graphText (path : Path) (overrides : Overrides) (config : Option Path) : Action String := do
  let settings ← Action.ask (loadSettings · config)
  let settings := settings.override overrides
  let report ← Action.ask (Report.ofProject · settings path)
  pure (settings.output.render report.tree (some report.analysis.root))

def execute : Command -> Action Unit
  | .analyze path overrides output config => do
      let text ← graphText path overrides config
      match output with
      | some file => Action.write file text
      | none => Action.print text
  | .components path config exclude => do
      let settings ← Action.ask (loadSettings · config)
      let settings := settings.override { Overrides.none with exclude }
      let analysis ← Action.ask (Analysis.ofProject · settings path)
      analysis.registry.definitions.forM fun d => Action.print (componentLine analysis d)
  | .version => Action.print versionLine

/-! ## Whole runs -/

def failureLine (f : Failure) : String :=
  "Error [" ++ f.code ++ "]: " ++ f.message

def runCommand (t : FileTree) (c : Command) : Outcome :=
  match (execute c).run ⟨"", [], t⟩ with
  | (.ok _, w) => ⟨0, w.stdout, none, w.written, w.tree⟩
  | (.error f, w) => ⟨f.exitStatus, w.stdout, some (failureLine f), w.written, w.tree⟩

def run (t : FileTree) (args : List String) : Outcome :=
  match parse args with
  | .ok c => runCommand t c
  | .error .help => ⟨0, helpText, none, [], t⟩
  | .error .version => ⟨0, versionLine, none, [], t⟩
  | .error .usage => ⟨2, "", none, [], t⟩

end CommandLine
end JsxUsage
