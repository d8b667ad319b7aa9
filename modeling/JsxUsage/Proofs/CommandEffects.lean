import JsxUsage.CommandLine.Run
import JsxUsage.Proofs.FileWriting
import JsxUsage.Proofs.NameCollisions
import JsxUsage.Proofs.ProjectOutcome

/-!
# The effects of commands

A command asks all its questions before it prints or writes for the first time,
and printing does not fail.  So a command that fails has printed and written
nothing.
-/

namespace JsxUsage

/-- The failures that end a command.  Everything else that goes wrong becomes a diagnostic. -/
inductive Failure.EndsCommand : Failure -> Prop where
  | io (message : String) : EndsCommand (.io message)
  | settingsText (message : String) : EndsCommand (.settingsText message)
  | settings (message : String) : EndsCommand (.settings message)
  | pathNotFound (path : Path) : EndsCommand (.pathNotFound path)
  | globPattern (fault : GlobFault) : EndsCommand (.globPattern fault)
  | rootNotFound (root : String) : EndsCommand (.rootNotFound root)

theorem Failure.exitStatus_eq_two_iff (f : Failure) :
    f.exitStatus = 2 <-> exists root, f = .rootNotFound root := by
  cases f <;> simp [exitStatus]

theorem Failure.exitStatus_eq_one_iff (f : Failure) :
    f.exitStatus = 1 <-> forall root, f ≠ .rootNotFound root := by
  cases f <;> simp [exitStatus]

namespace CommandLine
namespace Action

variable {α β : Type}

/-!
## Steps
-/

theorem run_bind_ok {x : Action α} {next : α -> Action β} {w after : World} {a : α}
    (h : x.run w = (.ok a, after)) : (x >>= next).run w = (next a).run after := by
  simp only [ExceptT.run, bind, ExceptT.bind, ExceptT.mk, StateT.bind] at h ⊢
  rw [h]
  rfl

theorem run_bind_error {x : Action α} {next : α -> Action β} {w after : World} {f : Failure}
    (h : x.run w = (.error f, after)) : (x >>= next).run w = (.error f, after) := by
  simp only [ExceptT.run, bind, ExceptT.bind, ExceptT.mk, StateT.bind] at h ⊢
  rw [h]
  rfl

theorem run_get (w : World) : (get : Action World).run w = (.ok w, w) :=
  rfl

theorem run_ask (question : FileTree -> Except Failure α) (w : World) :
    (ask question).run w = (question w.tree, w) := by
  rw [ask, run_bind_ok (run_get w)]
  cases question w.tree with
  | ok answer => rfl
  | error f => rfl

theorem run_print (text : String) (w : World) :
    (print text).run w = (.ok (), { w with stdout := w.stdout ++ text }) :=
  rfl

theorem run_write_ok {w : World} {file : Path} {text : String} {tree : FileTree}
    (h : w.tree.writeText file text = .ok tree) :
    (write file text).run w =
      (.ok (), { w with tree, written := w.written ++ [(file, text)] }) := by
  rw [write, run_bind_ok (run_get w), h]
  rfl

theorem run_write_error {w : World} {file : Path} {text : String} {error : OsError}
    (h : w.tree.writeText file text = .error error) :
    (write file text).run w = (.error (.io error.message), w) := by
  rw [write, run_bind_ok (run_get w), h]
  rfl

/-!
## Failing cleanly
-/

/-- The step leaves everything as it is. -/
def Quiet (x : Action α) : Prop :=
  forall w, (x.run w).2 = w

/-- If the step fails, then it has done nothing, and the failure is one that ends commands. -/
def FailsCleanly (x : Action α) : Prop :=
  forall w f after, x.run w = (.error f, after) -> after = w ∧ f.EndsCommand

theorem quiet_pure (a : α) : Quiet (pure a) :=
  fun _ => rfl

theorem quiet_ask (question : FileTree -> Except Failure α) : Quiet (ask question) := by
  intro w
  rw [run_ask]

theorem quiet_bind {x : Action α} {next : α -> Action β} (hx : Quiet x)
    (hnext : forall a, Quiet (next a)) : Quiet (x >>= next) := by
  intro w
  cases hrun : x.run w with
  | mk result after =>
      have hafter : after = w := by
        rw [← hx w, hrun]
      subst hafter
      cases result with
      | error f => rw [run_bind_error hrun]
      | ok a =>
          rw [run_bind_ok hrun]
          exact hnext a after

theorem failsCleanly_pure (a : α) : FailsCleanly (pure a) := by
  intro w f after h
  cases h

theorem failsCleanly_ask {question : FileTree -> Except Failure α}
    (h : forall t f, question t = .error f -> f.EndsCommand) : FailsCleanly (ask question) := by
  intro w f after hrun
  rw [run_ask] at hrun
  cases hquestion : question w.tree with
  | ok answer =>
      rw [hquestion] at hrun
      cases hrun
  | error failure =>
      rw [hquestion] at hrun
      cases hrun
      exact ⟨rfl, h _ _ hquestion⟩

theorem failsCleanly_print (text : String) : FailsCleanly (print text) := by
  intro w f after h
  cases h

theorem failsCleanly_write (file : Path) (text : String) : FailsCleanly (write file text) := by
  intro w f after h
  cases hwrite : w.tree.writeText file text with
  | ok tree =>
      rw [run_write_ok hwrite] at h
      cases h
  | error error =>
      rw [run_write_error hwrite] at h
      cases h
      exact ⟨rfl, .io _⟩

-- The first step has to be quiet: what it had done would still be there if the second one failed.
theorem failsCleanly_bind {x : Action α} {next : α -> Action β} (hquiet : Quiet x)
    (hx : FailsCleanly x) (hnext : forall a, FailsCleanly (next a)) :
    FailsCleanly (x >>= next) := by
  intro w f after h
  cases hrun : x.run w with
  | mk result middle =>
      have hmiddle : middle = w := by
        rw [← hquiet w, hrun]
      subst hmiddle
      cases result with
      | error failure =>
          rw [run_bind_error hrun] at h
          cases h
          exact hx _ _ _ hrun
      | ok a =>
          rw [run_bind_ok hrun] at h
          exact hnext a _ _ _ h

theorem exists_run_forM_print (text : β -> String) (items : List β) (w : World) :
    exists after, (items.forM fun item => print (text item)).run w = (.ok (), after) := by
  induction items generalizing w with
  | nil => exact ⟨w, rfl⟩
  | cons item rest ih =>
      rcases ih { w with stdout := w.stdout ++ text item } with ⟨after, hrest⟩
      refine ⟨after, ?_⟩
      rw [List.forM_eq_forM, List.forM_cons, run_bind_ok (run_print (text item) w)]
      exact hrest

theorem failsCleanly_forM_print (text : β -> String) (items : List β) :
    FailsCleanly (items.forM fun item => print (text item)) := by
  intro w f after h
  rcases exists_run_forM_print text items w with ⟨other, hok⟩
  rw [hok] at h
  cases h

end Action

/-!
## Questions
-/

theorem endsCommand_toFailure (fault : SettingsFault) : fault.toFailure.EndsCommand := by
  cases fault with
  | pattern fault => exact .globPattern fault
  | _ => exact .settings _

theorem endsCommand_of_validate {s : Settings} {f : Failure} (h : s.validate = .error f) :
    f.EndsCommand := by
  unfold Settings.validate at h
  split at h
  · next fault _ =>
      cases h
      exact endsCommand_toFailure fault
  · cases h

theorem endsCommand_of_loadSettings {t : FileTree} {config : Option Path} {f : Failure}
    (h : loadSettings t config = .error f) : f.EndsCommand := by
  unfold loadSettings Settings.loadOrInitial at h
  split at h
  · unfold Settings.load at h
    split at h
    · cases h
      exact .io _
    · split at h
      · next htext =>
          cases h
          unfold Settings.ofText at htext
          split at htext
          · cases htext
            exact .settingsText _
          · split at htext
            · cases htext
              exact .settingsText _
            · cases htext
      · next s htext =>
          cases hvalid : s.validate with
          | ok u =>
              rw [hvalid] at h
              cases h
          | error failure =>
              rw [hvalid] at h
              cases h
              exact endsCommand_of_validate hvalid
  · cases h

theorem endsCommand_of_canonicalRoot {t : FileTree} {path : Path} {f : Failure}
    (h : Analysis.canonicalRoot t path = .error f) : f.EndsCommand := by
  unfold Analysis.canonicalRoot at h
  split at h
  · split at h
    · cases h
    · cases h
      exact .io _
  · cases h
    exact .pathNotFound _

theorem endsCommand_of_analysis {t : FileTree} {s : Settings} {path : Path} {f : Failure}
    (h : Analysis.ofProject t s path = .error f) : f.EndsCommand := by
  unfold Analysis.ofProject at h
  split at h
  · next hvalid =>
      cases h
      exact endsCommand_of_validate hvalid
  · split at h
    · next hroot =>
        cases h
        exact endsCommand_of_canonicalRoot hroot
    · split at h
      · cases h
        exact .globPattern _
      · cases h

theorem endsCommand_of_report {t : FileTree} {s : Settings} {path : Path} {f : Failure}
    (h : Report.ofProject t s path = .error f) : f.EndsCommand := by
  unfold Report.ofProject at h
  split at h
  · next hanalysis =>
      cases h
      exact endsCommand_of_analysis hanalysis
  · next analysis _ =>
      unfold Analysis.tree ComponentTree.build at h
      split at h
      · cases h
        exact .rootNotFound _
      · split at h
        · cases h
        · cases h
          exact .rootNotFound _

/-!
## Commands
-/

open JsxUsage.CommandLine.Action

theorem quiet_graphText (path : Path) (overrides : Overrides) (config : Option Path) :
    Quiet (graphText path overrides config) :=
  quiet_bind (quiet_ask _) fun _ => quiet_bind (quiet_ask _) fun _ => quiet_pure _

theorem failsCleanly_graphText (path : Path) (overrides : Overrides) (config : Option Path) :
    FailsCleanly (graphText path overrides config) := by
  refine failsCleanly_bind (quiet_ask _)
    (failsCleanly_ask fun _ _ => endsCommand_of_loadSettings) fun settings => ?_
  exact failsCleanly_bind (quiet_ask _) (failsCleanly_ask fun _ _ => endsCommand_of_report)
    fun _ => failsCleanly_pure _

theorem failsCleanly_execute (c : Command) : FailsCleanly (execute c) := by
  cases c with
  | analyze path overrides output config =>
      refine failsCleanly_bind (quiet_graphText _ _ _) (failsCleanly_graphText _ _ _) fun text => ?_
      cases output with
      | none => exact failsCleanly_print text
      | some file => exact failsCleanly_write file text
  | components path config exclude =>
      refine failsCleanly_bind (quiet_ask _)
        (failsCleanly_ask fun _ _ => endsCommand_of_loadSettings) fun settings => ?_
      refine failsCleanly_bind (quiet_ask _)
        (failsCleanly_ask fun _ _ => endsCommand_of_analysis) fun analysis => ?_
      exact failsCleanly_forM_print _ _
  | version => exact failsCleanly_print versionLine

def Fails (t : FileTree) (c : Command) (f : Failure) : Prop :=
  ((execute c).run ⟨"", [], t⟩).1 = .error f

def Succeeds (t : FileTree) (c : Command) : Prop :=
  ((execute c).run ⟨"", [], t⟩).1 = .ok ()

theorem runCommand_of_fails {t : FileTree} {c : Command} {f : Failure} (h : Fails t c f) :
    runCommand t c = ⟨f.exitStatus, "", some (failureLine f), [], t⟩ ∧ f.EndsCommand := by
  cases hrun : (execute c).run ⟨"", [], t⟩ with
  | mk result after =>
      rw [Fails, hrun] at h
      cases h
      rcases failsCleanly_execute c _ _ _ hrun with ⟨hafter, hends⟩
      refine ⟨?_, hends⟩
      rw [runCommand, hrun, hafter]

theorem runCommand_of_ok {t : FileTree} {c : Command} {w : World}
    (h : (execute c).run ⟨"", [], t⟩ = (.ok (), w)) :
    runCommand t c = ⟨0, w.stdout, none, w.written, w.tree⟩ := by
  rw [runCommand, h]

/-- With a file and without one, `analyze` finds the same text or fails in the same way. -/
theorem execute_analyze (t : FileTree) (path : Path) (overrides : Overrides)
    (config : Option Path) :
    (exists f, forall output, Fails t (.analyze path overrides output config) f) ∨
    exists text,
      (execute (.analyze path overrides none config)).run ⟨"", [], t⟩ = (.ok (), ⟨text, [], t⟩) ∧
      forall file, (execute (.analyze path overrides (some file) config)).run ⟨"", [], t⟩ =
        (write file text).run ⟨"", [], t⟩ := by
  cases hrun : (graphText path overrides config).run ⟨"", [], t⟩ with
  | mk result after =>
      have hafter : after = ⟨"", [], t⟩ := by
        rw [← quiet_graphText path overrides config ⟨"", [], t⟩, hrun]
      subst hafter
      cases result with
      | error f =>
          refine .inl ⟨f, fun output => ?_⟩
          rw [Fails, execute, run_bind_error hrun]
      | ok text =>
          refine .inr ⟨text, ?_, fun file => ?_⟩
          · rw [execute, run_bind_ok hrun, run_print, String.empty_append]
          · rw [execute, run_bind_ok hrun]

theorem run_graphText {w : World} {path : Path} {overrides : Overrides} {config : Option Path}
    {settings : Settings} (hsettings : loadSettings w.tree config = .ok settings) :
    (graphText path overrides config).run w =
      ((Report.ofProject w.tree (settings.override overrides) path).map fun report =>
        (settings.override overrides).output.render report.tree (some report.analysis.root),
        w) := by
  have hload := run_ask (loadSettings · config) w
  have hproject := run_ask (Report.ofProject · (settings.override overrides) path) w
  rw [hsettings] at hload
  rw [graphText, run_bind_ok hload]
  cases hreport : Report.ofProject w.tree (settings.override overrides) path with
  | error f =>
      rw [hreport] at hproject
      exact run_bind_error hproject
  | ok report =>
      rw [hreport] at hproject
      exact run_bind_ok hproject

section

variable {t : FileTree} {path : Path} {overrides : Overrides} {config : Option Path}
  {settings : Settings} (hsettings : loadSettings t config = .ok settings)
include hsettings

theorem fails_analyze {f : Failure} (output : Option Path)
    (hreport : Report.ofProject t (settings.override overrides) path = .error f) :
    Fails t (.analyze path overrides output config) f := by
  have htext : (graphText path overrides config).run ⟨"", [], t⟩ = _ := run_graphText hsettings
  rw [hreport] at htext
  rw [Fails, execute, run_bind_error htext]

theorem succeeds_analyze {report : Report}
    (hreport : Report.ofProject t (settings.override overrides) path = .ok report) :
    Succeeds t (.analyze path overrides none config) := by
  have htext : (graphText path overrides config).run ⟨"", [], t⟩ = _ := run_graphText hsettings
  rw [hreport] at htext
  rw [Succeeds, execute, run_bind_ok htext, run_print]

end

theorem succeeds_analyze_iff (t : FileTree) (path : Path) (overrides : Overrides) (file : Path)
    (config : Option Path) :
    Succeeds t (.analyze path overrides (some file) config) <->
      Succeeds t (.analyze path overrides none config) ∧
        exists place, t.filePlace file = .ok place := by
  rcases execute_analyze t path overrides config with ⟨f, hfails⟩ | ⟨text, hprint, hwrite⟩
  · have hnot : forall output, ¬Succeeds t (.analyze path overrides output config) := by
      intro output hok
      have hboth := (hfails output).symm.trans hok
      cases hboth
    exact iff_of_false (hnot _) fun h => hnot _ h.1
  · have hok : Succeeds t (.analyze path overrides none config) := by
      rw [Succeeds, hprint]
    rw [Succeeds, hwrite]
    cases hplace : t.filePlace file with
    | ok place =>
        rw [run_write_ok (by rw [FileTree.writeText, hplace]; rfl)]
        exact iff_of_true rfl ⟨hok, place, rfl⟩
    | error error =>
        rw [run_write_error (by rw [FileTree.writeText, hplace]; rfl)]
        refine iff_of_false (by simp) ?_
        intro h
        rcases h with ⟨-, place, hother⟩
        cases hother

theorem runCommand_analyze {t : FileTree} {path : Path} {overrides : Overrides} {file : Path}
    {config : Option Path} (h : Succeeds t (.analyze path overrides (some file) config)) :
    exists text after, t.writeText file text = .ok after ∧
      runCommand t (.analyze path overrides (some file) config) =
        ⟨0, "", none, [(file, text)], after⟩ ∧
      runCommand t (.analyze path overrides none config) = ⟨0, text, none, [], t⟩ := by
  rcases execute_analyze t path overrides config with ⟨f, hfails⟩ | ⟨text, hprint, hwrite⟩
  · have hboth := (hfails (some file)).symm.trans h
    cases hboth
  · cases hafter : t.writeText file text with
    | error error =>
        rw [Succeeds, hwrite, run_write_error hafter] at h
        cases h
    | ok after =>
        refine ⟨text, after, hafter, ?_, runCommand_of_ok hprint⟩
        exact runCommand_of_ok ((hwrite file).trans (run_write_ok hafter))

theorem commands_fail_cleanly {args : List String} {c : Command} (hparse : parse args = .ok c)
    (t : FileTree) :
    (forall f, Fails t c f ->
      (run t args).stdout = "" ∧ (run t args).tree = t ∧ (run t args).written = [] ∧
      (run t args).errorLine = some (failureLine f) ∧ f.EndsCommand ∧
      ((run t args).exit = 2 <-> exists root, f = .rootNotFound root) ∧
      ((run t args).exit = 1 <-> forall root, f ≠ .rootNotFound root)) ∧
    (Succeeds t c -> (run t args).exit = 0 ∧ (run t args).errorLine = none) ∧
    forall path overrides file config, c = .analyze path overrides (some file) config ->
      (Succeeds t c <->
        Succeeds t (.analyze path overrides none config) ∧
          exists place, t.filePlace file = .ok place) ∧
      (Succeeds t c -> exists text place,
        (run t args).stdout = "" ∧ (run t args).written = [(file, text)] ∧
        t.filePlace file = .ok place ∧
        (forall other, (run t args).tree.top.node? other =
          if other = place then some (.file (.text text)) else t.top.node? other) ∧
        (run t args).tree.readText file = .ok text ∧
        runCommand t (.analyze path overrides none config) = ⟨0, text, none, [], t⟩ ∧
        forall args', parse args' = .ok (.analyze path overrides none config) ->
          (run t args').stdout = text) := by
  have hrun : forall {args c}, parse args = .ok c -> run t args = runCommand t c := by
    intro args c h
    rw [run, h]
  rw [hrun hparse]
  refine ⟨?_, ?_, ?_⟩
  · intro f hfails
    rcases runCommand_of_fails hfails with ⟨hcommand, hends⟩
    rw [hcommand]
    exact ⟨rfl, rfl, rfl, rfl, hends, f.exitStatus_eq_two_iff, f.exitStatus_eq_one_iff⟩
  · intro hok
    cases hexecute : (execute c).run ⟨"", [], t⟩ with
    | mk result after =>
        rw [Succeeds, hexecute] at hok
        cases hok
        rw [runCommand_of_ok hexecute]
        exact ⟨rfl, rfl⟩
  · intro path overrides file config heq
    subst heq
    refine ⟨succeeds_analyze_iff t path overrides file config, fun hok => ?_⟩
    rcases runCommand_analyze hok with ⟨text, after, hwrite, hfile, hprint⟩
    rcases FileTree.node?_writeText hwrite with ⟨place, hplace, -, hafter⟩
    rw [hfile]
    refine ⟨text, place, rfl, rfl, hplace, hafter, FileTree.readText_writeText hwrite, hprint, ?_⟩
    intro args' hparse'
    rw [hrun hparse', hprint]

/-!
## One component
-/

def appText : String := "function App() \x7b return <p/>; \x7d"

/-- A component, and a directory without any. -/
def lone : FileTree :=
  ⟨.directory [("App.jsx", .file (.text appText)), ("docs", .directory [])], []⟩

def scriptRule : CatalogRule := ⟨["js", "jsx", "ts", "tsx"], []⟩

theorem wellFormed_lone : lone.top.WellFormed := by
  refine .directory (by decide) (by decide) ?_
  simp only [List.forall_mem_cons]
  exact ⟨.file _, .directory (by simp) (by simp) (by simp), by simp⟩

theorem resolve_lone (follow : Bool) : lone.resolve follow ⟨"/App.jsx"⟩ = .ok ["App.jsx"] :=
  FileTree.resolve_of_pieces (by decide) (by decide) rfl (by nofun) follow

theorem canonical_lone : lone.canonical ⟨"/App.jsx"⟩ = .ok ⟨"/App.jsx"⟩ := by
  rw [FileTree.canonical, FileTree.entry, resolve_lone]
  rfl

theorem scan_lone : (Catalog.scan lone scriptRule ⟨"/App.jsx"⟩).files = [⟨"/App.jsx"⟩] := by
  have hwalk : lone.walk (scriptRule.excludes ⟨"/App.jsx"⟩) ⟨"/App.jsx"⟩ = [.ok ⟨"/App.jsx"⟩] := by
    rw [FileTree.walk, FileTree.entry, resolve_lone]
    simp [lone, Entry.at?, Entry.named?, FileTree.walkEntry_file, CatalogRule.excludes, scriptRule]
  have hlisted : (Catalog.listed [.ok ⟨"/App.jsx"⟩]).filter scriptRule.hasExtension =
      [⟨"/App.jsx"⟩] := rfl
  rw [Catalog.scan, hwalk, hlisted]
  exact List.mergeSort_of_pairwise (by simp)

theorem load_lone : ParseCache.load true lone ⟨"/App.jsx"⟩ =
    .ok (SourceFile.ofText ⟨"/App.jsx"⟩ .jsx appText) := by
  have hread : lone.readText ⟨"/App.jsx"⟩ = .ok appText := by
    rw [FileTree.readText, FileTree.entry, resolve_lone]
    rfl
  have hdialect : SourceFile.dialectOf? ⟨"/App.jsx"⟩ = some .jsx := by decide +kernel
  have herror : (SourceFile.ofText ⟨"/App.jsx"⟩ .jsx appText).hasSyntaxError = false := by
    decide +kernel
  simp [ParseCache.load, hread, hdialect, herror]

theorem report_lone :
    exists report, Report.ofProject lone Settings.initial ⟨"/App.jsx"⟩ = .ok report := by
  have hrule : CatalogRule.ofTexts AnalysisSettings.initial.extensions
      AnalysisSettings.initial.exclude = .ok scriptRule := rfl
  have hproject : Analysis.ofProject lone Settings.initial ⟨"/App.jsx"⟩ = .ok _ :=
    Analysis.ofProject_eq rfl canonical_lone hrule
  have hincreasing := Catalog.increasing_scan wellFormed_lone scriptRule ⟨"/App.jsx"⟩
  have hdeclares : Analysis.Declares lone true "App" ⟨"/App.jsx"⟩ :=
    ⟨_, ⟨"App", .function, 1, true, ["p"]⟩, load_lone, by decide +kernel, rfl⟩
  have hfile : ⟨"/App.jsx"⟩ ∈ (Catalog.scan lone scriptRule ⟨"/App.jsx"⟩).files := by
    rw [scan_lone]
    exact List.mem_singleton.mpr rfl
  rcases Analysis.exists_definition wellFormed_lone AnalysisSettings.initial hfile hdeclares with
    ⟨d, hd, hname⟩
  rcases Analysis.report_cases hproject (Analysis.distinctPaths_of_increasing hincreasing) with
    ⟨_, -, -, hreport⟩ | ⟨hnone, -⟩
  · exact ⟨_, hreport⟩
  · exact absurd hname (hnone d hd)

theorem report_docs :
    Report.ofProject lone Settings.initial ⟨"/docs"⟩ = .error (.rootNotFound "App") := by
  have hresolve : forall follow, lone.resolve follow ⟨"/docs"⟩ = .ok ["docs"] :=
    FileTree.resolve_of_pieces (by decide) (by decide) rfl (by nofun)
  have hcanonical : lone.canonical ⟨"/docs"⟩ = .ok ⟨"/docs"⟩ := by
    rw [FileTree.canonical, FileTree.entry, hresolve]
    rfl
  have hwalk : lone.walk (scriptRule.excludes ⟨"/docs"⟩) ⟨"/docs"⟩ = [] := by
    rw [FileTree.walk, FileTree.entry, hresolve]
    simp [lone, Entry.at?, Entry.named?, FileTree.walkEntry_directory, CatalogRule.excludes,
      scriptRule, Entry.listing]
  have hscan : Catalog.scan lone scriptRule ⟨"/docs"⟩ = ⟨[], []⟩ := by
    rw [Catalog.scan, hwalk]
    simp [Catalog.listed, Catalog.faults]
  have hproject : Analysis.ofProject lone Settings.initial ⟨"/docs"⟩ = .ok _ :=
    Analysis.ofProject_eq rfl hcanonical
      (show CatalogRule.ofTexts _ _ = .ok scriptRule from rfl)
  rw [Report.ofProject, hproject, hscan]
  rfl

theorem filePlace_lone : lone.filePlace ⟨"/graph.txt"⟩ = .ok ["graph.txt"] := by
  have hpieces : (Path.pieces "/graph.txt".toList).map String.ofList = ["", "graph.txt"] := by
    decide
  rw [FileTree.filePlace, if_neg (by decide), hpieces]
  simp [FileTree.locateFile, lone, Entry.at?, Entry.named?, Entry.isDirectory, Path.isAbsolute]

theorem loadSettings_lone : loadSettings lone none = .ok Settings.initial := by
  have hpieces : (Path.pieces "component-graph.toml".toList).map String.ofList =
      ["component-graph.toml"] := by decide
  have hresolve : lone.resolve true defaultSettingsFile = .error .notFound := by
    rw [defaultSettingsFile, FileTree.resolve, if_neg (by decide), hpieces]
    simp [FileTree.locate, lone, Entry.at?, Entry.named?, Entry.isDirectory, Path.isAbsolute]
  have hexists : lone.exists? defaultSettingsFile = false := by
    rw [FileTree.exists?, FileTree.entry, hresolve]
  rw [loadSettings, Settings.loadOrInitial, Option.getD_none, hexists]
  rfl

theorem commands_fail_cleanly_lone :
    (exists text,
      (run lone ["analyze", "/App.jsx", "--output", "/graph.txt"]).stdout = "" ∧
      (run lone ["analyze", "/App.jsx", "--output", "/graph.txt"]).tree.readText ⟨"/graph.txt"⟩ =
        .ok text ∧
      (run lone ["analyze", "/App.jsx"]).stdout = text) ∧
    (run lone ["analyze", "/docs", "--output", "/graph.txt"]).tree = lone ∧
    (run lone ["analyze", "/docs", "--output", "/graph.txt"]).exit = 2 := by
  constructor
  · have hparse : parse ["analyze", "/App.jsx", "--output", "/graph.txt"] =
        .ok (.analyze ⟨"/App.jsx"⟩ Overrides.none (some ⟨"/graph.txt"⟩) none) := rfl
    rcases commands_fail_cleanly hparse lone with ⟨-, -, hanalyze⟩
    rcases hanalyze _ _ _ _ rfl with ⟨hiff, hok⟩
    rcases report_lone with ⟨report, hreport⟩
    have hsucceeds := hiff.mpr
      ⟨succeeds_analyze loadSettings_lone hreport, ["graph.txt"], filePlace_lone⟩
    rcases hok hsucceeds with ⟨text, place, hstdout, -, -, -, hread, -, hprint⟩
    exact ⟨text, hstdout, hread, hprint ["analyze", "/App.jsx"] rfl⟩
  · have hparse : parse ["analyze", "/docs", "--output", "/graph.txt"] =
        .ok (.analyze ⟨"/docs"⟩ Overrides.none (some ⟨"/graph.txt"⟩) none) := rfl
    rcases commands_fail_cleanly hparse lone with ⟨hfails, -⟩
    rcases hfails _ (fails_analyze loadSettings_lone _ report_docs) with
      ⟨-, htree, -, -, -, htwo, -⟩
    exact ⟨htree, htwo.mpr ⟨"App", rfl⟩⟩

end CommandLine
end JsxUsage
