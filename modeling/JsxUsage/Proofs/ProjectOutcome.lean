import JsxUsage.Analysis
import JsxUsage.Proofs.CachedFiles
import JsxUsage.Proofs.CatalogExclusion
import JsxUsage.Proofs.UsageResolution
import JsxUsage.Proofs.WalkFaults

/-!
# The outcome of an analysis

Once the settings pass and the directory of a project is found, nothing in the
project can make its analysis fail: what cannot be read is left out and reported,
each file once.  A report can still lack its root component, and this is the only
way for it to fail.
-/

namespace JsxUsage

/-!
# Before the files are read
-/

theorem CatalogRule.exists_ofTexts {s : Settings} (h : s.validate = .ok ()) :
    exists rule, ofTexts s.analysis.extensions s.analysis.exclude = .ok rule := by
  have hfault : s.fault? = none := by
    unfold Settings.validate at h
    cases hf : s.fault? with
    | none => rfl
    | some fault =>
        rw [hf] at h
        cases h
  cases hglobs : readGlobs s.analysis.exclude with
  | error fault =>
      unfold Settings.fault? at hfault
      rw [hglobs] at hfault
      split_ifs at hfault
  | ok globs =>
      rw [ofTexts, hglobs]
      exact ⟨_, rfl⟩

namespace FileTree

theorem isAbsolute_pathOf (place : List String) : (pathOf place).isAbsolute = true := by
  simp [pathOf, Path.isAbsolute]

variable {t : FileTree} {path root : Path} (h : t.canonical path = .ok root)
include h

theorem isAbsolute_canonical : root.isAbsolute = true := by
  unfold canonical at h
  cases hentry : t.entry true path with
  | error e =>
      rw [hentry] at h
      cases h
  | ok found =>
      rw [hentry] at h
      cases h
      exact isAbsolute_pathOf found.1

theorem exists?_of_canonical : t.exists? path = true := by
  unfold canonical at h
  unfold exists?
  cases hentry : t.entry true path with
  | error e =>
      rw [hentry] at h
      cases h
  | ok found => rfl

end FileTree

namespace Analysis

theorem ofProject_eq {t : FileTree} {s : Settings} {path root : Path} {rule : CatalogRule}
    (hvalid : s.validate = .ok ()) (hroot : t.canonical path = .ok root)
    (hrule : CatalogRule.ofTexts s.analysis.extensions s.analysis.exclude = .ok rule) :
    ofProject t s path = .ok (ofCatalog t s.analysis root (Catalog.scan t rule root)) := by
  have hcanonical : canonicalRoot t path = .ok root := by
    rw [canonicalRoot, if_pos (FileTree.exists?_of_canonical hroot), hroot]
  rw [ofProject, hvalid]
  simp only [hcanonical, hrule]

end Analysis

namespace Catalog

theorem filter_error_eq (items : List (Except WalkFault Path)) :
    items.filter (fun item => !item.isOk) = (faults items).map .error := by
  induction items with
  | nil => rfl
  | cons item items ih =>
      cases item with
      | ok p => exact ih
      | error fault => exact congrArg (Except.error fault :: ·) ih

theorem mem_faults {items : List (Except WalkFault Path)} {fault : WalkFault} :
    fault ∈ faults items <-> .error fault ∈ items := by
  rw [← List.mem_map_of_injective (f := Except.error) fun _ _ => Except.error.inj, ← filter_error_eq]
  simp [Except.isOk, Except.toBool]

/-- From a canonical root a walk reports the faults that one comes to. -/
theorem mem_faults_walk_iff {t : FileTree} {skip : Path -> Bool} {path root : Path}
    (htop : t.top.WellFormed) (hroot : t.canonical path = .ok root) (fault : WalkFault) :
    fault ∈ faults (t.walk skip root) <->
      exists names, t.ComesTo root names ∧ FileTree.ClearAbove skip root names ∧
        t.Faulty root names fault := by
  rw [mem_faults, FileTree.error_mem_walk_iff htop]
  constructor
  · intro h
    rcases h with ⟨e, herror, _⟩ | h
    · rcases FileTree.entry_of_canonical htop hroot with ⟨found, hfound⟩
      rw [herror] at hfound
      cases hfound
    · exact h
  · exact Or.inr

end Catalog

theorem ParseCache.outcome_eq_error_iff {strict : Bool} {t : FileTree} {p : Path} {m : String} :
    outcome strict t p = .error m <->
      exists failure, load strict t p = .error failure ∧ failureMessage failure = m := by
  unfold outcome
  cases hload : load strict t p with
  | error failure => simp [Except.mapError]
  | ok source => simp [Except.mapError]

/-!
# The root component
-/

namespace ComponentTree

open Registry (discover DistinctPaths)
open Resolver (usages)

/-- Every component of a project has its list of uses, so the tree of a name is
missing only if the name is. -/
theorem build_usages (sources : Path -> Option SourceFile) {files : List Path}
    (extensions : List String) (scope : UsageScope) (hdistinct : DistinctPaths files)
    (maxDepth : Nat) (name : String) :
    (exists d, d ∈ (discover sources files).definitions ∧ d.name = name ∧
      build (discover sources files) (usages sources files extensions scope) maxDepth name =
        .ok (buildFrom (usages sources files extensions scope) maxDepth d.id)) ∨
    ((forall d, d ∈ (discover sources files).definitions -> d.name ≠ name) ∧
      build (discover sources files) (usages sources files extensions scope) maxDepth name =
        .error (.rootNotFound name)) := by
  cases hlookup : (discover sources files).lookup name with
  | some d =>
      left
      rcases Registry.mem_of_lookup hlookup with ⟨hd, hname⟩
      have hlisted := (Resolver.contains_usages sources extensions scope hdistinct d.id).mpr
        (Registry.registered_of_mem hd)
      refine ⟨d, hd, hname, ?_⟩
      rw [build, hlookup]
      simp only [hlisted, if_true]
  | none =>
      right
      refine ⟨?_, ?_⟩
      · intro d hd hname
        have hsome : ((discover sources files).lookup name).isSome = true := by
          rw [discover, Registry.lookup_isSome_iff, Registry.defines, List.any_eq_true]
          exact ⟨d, hd, beq_iff_eq.mpr hname⟩
        rw [hlookup] at hsome
        cases hsome
      · rw [build, hlookup]

end ComponentTree

namespace Analysis

open Registry (DistinctPaths)

theorem distinctPaths_of_increasing {files : List Path}
    (h : files.Pairwise fun p q => p.compare q = .lt) : DistinctPaths files :=
  h.imp Path.ne_of_compare_lt

/-- A report is the analysis with the tree of the root component, or fails for
want of that component. -/
theorem report_cases {t : FileTree} {s : Settings} {path root : Path} {catalog : Catalog}
    (hproject : ofProject t s path = .ok (ofCatalog t s.analysis root catalog))
    (hdistinct : DistinctPaths catalog.files) :
    (exists d, d ∈ (ofCatalog t s.analysis root catalog).registry.definitions ∧
      d.name = s.analysis.rootComponent ∧
      Report.ofProject t s path = .ok ⟨ofCatalog t s.analysis root catalog,
        ComponentTree.buildFrom (ofCatalog t s.analysis root catalog).adjacency s.analysis.maxDepth
          d.id⟩) ∨
    ((forall d, d ∈ (ofCatalog t s.analysis root catalog).registry.definitions ->
        d.name ≠ s.analysis.rootComponent) ∧
      Report.ofProject t s path = .error (.rootNotFound s.analysis.rootComponent)) := by
  have hreport : Report.ofProject t s path =
      ((ofCatalog t s.analysis root catalog).tree s.analysis.rootComponent
        s.analysis.maxDepth).map fun tree => ⟨ofCatalog t s.analysis root catalog, tree⟩ := by
    rw [Report.ofProject, hproject]
  have hbuild := ComponentTree.build_usages
    (fun p => (((ParseCache.new s.analysis.strictParse).getAll t catalog.files).get t p).2)
    (s.analysis.extensions.map CatalogRule.withoutDots) s.analysis.usageScope hdistinct
    s.analysis.maxDepth s.analysis.rootComponent
  rcases hbuild with ⟨d, hd, hname, htree⟩ | ⟨hnone, htree⟩
  · left
    refine ⟨d, hd, hname, ?_⟩
    rw [hreport, tree]
    exact congrArg (Except.map _) htree
  · right
    refine ⟨hnone, ?_⟩
    rw [hreport, tree]
    exact congrArg (Except.map _) htree

theorem report_error_iff {t : FileTree} {s : Settings} {path root : Path} {catalog : Catalog}
    (hproject : ofProject t s path = .ok (ofCatalog t s.analysis root catalog))
    (hdistinct : DistinctPaths catalog.files) (failure : Failure) :
    Report.ofProject t s path = .error failure <->
      failure = .rootNotFound s.analysis.rootComponent ∧
      forall d, d ∈ (ofCatalog t s.analysis root catalog).registry.definitions ->
        d.name ≠ s.analysis.rootComponent := by
  rcases report_cases hproject hdistinct with ⟨d, hd, hname, hreport⟩ | ⟨hnone, hreport⟩
  · rw [hreport]
    constructor
    · intro h
      cases h
    · intro h
      rcases h with ⟨-, hmissing⟩
      exact absurd hname (hmissing d hd)
  · rw [hreport]
    constructor
    · intro h
      cases h
      exact ⟨rfl, hnone⟩
    · intro h
      rcases h with ⟨rfl, -⟩
      rfl

theorem report_ok {t : FileTree} {s : Settings} {path root : Path} {catalog : Catalog}
    (hproject : ofProject t s path = .ok (ofCatalog t s.analysis root catalog))
    (hdistinct : DistinctPaths catalog.files) {report : Report}
    (hok : Report.ofProject t s path = .ok report) :
    report.analysis = ofCatalog t s.analysis root catalog ∧
      exists d, d ∈ (ofCatalog t s.analysis root catalog).registry.definitions ∧
        d.name = s.analysis.rootComponent ∧
        report.tree = ComponentTree.buildFrom (ofCatalog t s.analysis root catalog).adjacency
          s.analysis.maxDepth d.id := by
  rcases report_cases hproject hdistinct with ⟨d, hd, hname, hreport⟩ | ⟨hnone, hreport⟩
  · rw [hreport] at hok
    cases hok
    exact ⟨rfl, d, hd, hname, rfl⟩
  · rw [hreport] at hok
    cases hok

theorem ofProject_outcome {t : FileTree} {s : Settings} {path root : Path}
    (hvalid : s.validate = .ok ()) (hroot : t.canonical path = .ok root)
    (htree : t.top.WellFormed) :
    exists (analysis : Analysis) (rule : CatalogRule) (faults : List WalkFault)
        (failures : List (Path × String)),
      ofProject t s path = .ok analysis ∧
      CatalogRule.ofTexts s.analysis.extensions s.analysis.exclude = .ok rule ∧
      analysis.files = (Catalog.scan t rule root).files ∧
      (forall failure, Report.ofProject t s path = .error failure <->
        failure = .rootNotFound s.analysis.rootComponent ∧
        forall d, d ∈ analysis.registry.definitions -> d.name ≠ s.analysis.rootComponent) ∧
      (forall report, Report.ofProject t s path = .ok report ->
        report.analysis = analysis ∧ exists d, d ∈ analysis.registry.definitions ∧
          d.name = s.analysis.rootComponent ∧
          report.tree = ComponentTree.buildFrom analysis.adjacency s.analysis.maxDepth d.id) ∧
      analysis.diagnostics = (Catalog.scan t rule root).diagnostics ++
        failures.map (fun failed => .parse failed.1 failed.2) ∧
      (Catalog.scan t rule root).diagnostics =
        faults.map (fun fault => .directoryRead fault.path fault.message) ∧
      (t.walk (rule.excludes root) root).filter (fun item => !item.isOk) = faults.map .error ∧
      (forall fault, fault ∈ faults <-> exists names, t.ComesTo root names ∧
        FileTree.ClearAbove (rule.excludes root) root names ∧ t.Faulty root names fault) ∧
      failures.Pairwise (fun first second => first.1.compare second.1 = .lt) ∧
      (forall p m, (p, m) ∈ failures <-> p ∈ analysis.files ∧
        exists failure, ParseCache.load s.analysis.strictParse t p = .error failure ∧
          ParseCache.failureMessage failure = m) ∧
      forall again, (forall p, p ∈ again -> p ∈ analysis.files) ->
        ((ParseCache.new s.analysis.strictParse).getAll t (analysis.files ++ again)).failures =
          failures := by
  rcases CatalogRule.exists_ofTexts hvalid with ⟨rule, hrule⟩
  have hproject := ofProject_eq hvalid hroot hrule
  have habsolute := FileTree.isAbsolute_canonical hroot
  have hdistinct := distinctPaths_of_increasing (Catalog.increasing_scan htree rule root)
  have hfiles : forall p, p ∈ (Catalog.scan t rule root).files -> p.isAbsolute = true :=
    fun p => Catalog.isAbsolute_of_mem_scan htree rule habsolute
  have hanswers := ParseCache.answers_getAll (ParseCache.answers_new t s.analysis.strictParse)
    (Catalog.scan t rule root).files
  rw [List.nil_append] at hanswers
  refine ⟨_, rule, _, _, hproject, hrule, rfl, report_error_iff hproject hdistinct,
    fun report => report_ok hproject hdistinct, rfl, rfl, Catalog.filter_error_eq _,
    Catalog.mem_faults_walk_iff htree hroot, ParseCache.increasing_failures _, ?_, ?_⟩
  · intro p m
    rw [← ParseCache.outcome_eq_error_iff]
    exact ParseCache.mem_failures_of_answers hanswers hfiles fun p q hp hq =>
      Registry.eq_of_distinctPaths hdistinct hp hq
  · intro again hagain
    rw [ParseCache.getAll_append]
    exact congrArg ParseCache.failures (ParseCache.getAll_of_held hanswers hagain)

/-- A file that is no text, a link that leads nowhere, a link to the directory itself, and a
file with a component. -/
def bench : List (String × Entry) :=
  [("broken.jsx", .file (.bytes [0xff])), ("gone.jsx", .link ⟨"/nowhere"⟩),
    ("loop", .link ⟨"/app"⟩), ("main.jsx", .file (.text "function Main() \x7b return <p/>; \x7d"))]

def workshop : FileTree := ⟨.directory [("app", .directory bench)], []⟩

theorem wellFormed_workshop : workshop.top.WellFormed := by
  have hbench : (Entry.directory bench).WellFormed := by
    refine .directory (by decide) (by decide) ?_
    simp only [bench, List.forall_mem_cons]
    exact ⟨.file _, .link _, .link _, .file _, by simp⟩
  refine .directory (by decide) (by decide) ?_
  intro entry h
  rw [List.mem_singleton.mp h]
  exact hbench

theorem canonical_workshop : workshop.canonical ⟨"/app"⟩ = .ok ⟨"/app"⟩ := by
  have hplace : workshop.resolve true ⟨"/app"⟩ = .ok ["app"] :=
    FileTree.resolve_of_pieces (by decide) (by decide) rfl (by nofun) true
  rw [FileTree.canonical, FileTree.entry, hplace]
  rfl

theorem follow_gone : workshop.follow ⟨"/app/gone.jsx"⟩ = .error .notFound := by cbv

theorem follow_loop :
    workshop.follow ⟨"/app/loop"⟩ = .ok ⟨(["app"], .directory bench), rfl⟩ := by cbv

theorem walk_workshop {skip : Path -> Bool} (hskip : forall p, skip p = false) :
    workshop.walk skip ⟨"/app"⟩ =
      [.ok ⟨"/app/broken.jsx"⟩, .error (.unusable ⟨"/app/gone.jsx"⟩ .notFound),
        .error (.loop ⟨"/app/loop"⟩ ⟨"/app"⟩), .ok ⟨"/app/main.jsx"⟩] := by
  have hentry : workshop.entry false ⟨"/app"⟩ = .ok (["app"], .directory bench) := by cbv
  have hnames : (bench.map Prod.fst).Pairwise fun a b => decide (a ≤ b) = true := by
    decide +kernel
  have hlisting : Entry.listing bench = bench :=
    List.mergeSort_of_pairwise (List.pairwise_map.mp hnames)
  have hbroken : (Path.mk "/app").join ⟨"broken.jsx"⟩ = ⟨"/app/broken.jsx"⟩ :=
    congrArg Path.mk (by decide +kernel)
  have hgone : (Path.mk "/app").join ⟨"gone.jsx"⟩ = ⟨"/app/gone.jsx"⟩ :=
    congrArg Path.mk (by decide +kernel)
  have hloop : (Path.mk "/app").join ⟨"loop"⟩ = ⟨"/app/loop"⟩ :=
    congrArg Path.mk (by decide +kernel)
  have hmain : (Path.mk "/app").join ⟨"main.jsx"⟩ = ⟨"/app/main.jsx"⟩ :=
    congrArg Path.mk (by decide +kernel)
  rw [FileTree.walk, hentry]
  simp only [FileTree.walkEntry_directory, hskip, hlisting]
  simp only [bench, List.flatMap_cons, hbroken, hgone, hloop, hmain, FileTree.walkEntry_file, hskip]
  rw [FileTree.walkEntry, follow_gone, FileTree.walkEntry, follow_loop]
  rfl

/-- The rule of the settings without a file. -/
def plainRule : CatalogRule := ⟨["js", "jsx", "ts", "tsx"], []⟩

theorem ofTexts_plainRule :
    CatalogRule.ofTexts Settings.initial.analysis.extensions Settings.initial.analysis.exclude =
      .ok plainRule :=
  CatalogRule.ofTexts_eq (by decide +kernel) rfl

theorem excludes_plainRule (root p : Path) : plainRule.excludes root p = false := by
  simp [CatalogRule.excludes, plainRule]

theorem files_workshop : (Catalog.scan workshop plainRule ⟨"/app"⟩).files =
    [⟨"/app/broken.jsx"⟩, ⟨"/app/main.jsx"⟩] := by
  have hbroken : plainRule.hasExtension ⟨"/app/broken.jsx"⟩ = true := by decide +kernel
  have hmain : plainRule.hasExtension ⟨"/app/main.jsx"⟩ = true := by decide +kernel
  have horder : Path.le ⟨"/app/broken.jsx"⟩ ⟨"/app/main.jsx"⟩ = true := by decide +kernel
  have hsorted : [Path.mk "/app/broken.jsx", ⟨"/app/main.jsx"⟩].Pairwise fun p q => p.le q = true := by
    simp [horder]
  rw [Catalog.scan, walk_workshop (excludes_plainRule _)]
  simp only [Catalog.listed, List.filterMap_cons, List.filterMap_nil, Except.toOption,
    List.filter_cons, hbroken, hmain, if_true, List.filter_nil]
  exact List.mergeSort_of_pairwise hsorted

theorem load_main : exists file,
    ParseCache.load true workshop (Path.mk "/app/main.jsx") = .ok file := by
  have hread : workshop.readText ⟨"/app/main.jsx"⟩ =
      .ok "function Main() \x7b return <p/>; \x7d" := by cbv
  have hdialect : SourceFile.dialectOf? ⟨"/app/main.jsx"⟩ = some .jsx := by decide +kernel
  have herror : (SourceFile.ofText ⟨"/app/main.jsx"⟩ .jsx
      "function Main() \x7b return <p/>; \x7d").hasSyntaxError = false := by decide +kernel
  rw [ParseCache.load, hread]
  simp only [hdialect, herror, Bool.and_false]
  exact ⟨_, rfl⟩

theorem load_broken : ParseCache.load true workshop (Path.mk "/app/broken.jsx") =
    .error (.io "/app/broken.jsx: stream did not contain valid UTF-8") := by cbv

theorem failures_workshop {failures : List (Path × String)}
    (hincreasing : failures.Pairwise fun first second => first.1.compare second.1 = .lt)
    (hfailures : forall p m, (p, m) ∈ failures <->
      p ∈ [Path.mk "/app/broken.jsx", ⟨"/app/main.jsx"⟩] ∧
        exists failure, ParseCache.load true workshop p = .error failure ∧
          ParseCache.failureMessage failure = m) :
    failures =
      [(⟨"/app/broken.jsx"⟩, "IO error: /app/broken.jsx: stream did not contain valid UTF-8")] := by
  rcases load_main with ⟨file, hmain⟩
  have hnodup : failures.Nodup := by
    refine hincreasing.imp ?_
    intro first second hlt heq
    rw [heq] at hlt
    simpa using Path.ne_of_compare_lt hlt
  refine List.perm_singleton.mp ((List.perm_ext_iff_of_nodup hnodup (List.nodup_singleton _)).mpr ?_)
  intro failed
  rcases failed with ⟨p, m⟩
  rw [hfailures]
  simp only [List.mem_cons, List.not_mem_nil, or_false, Prod.mk.injEq]
  constructor
  · intro h
    rcases h with ⟨rfl | rfl, failure, hfailure, rfl⟩
    · cases load_broken.symm.trans hfailure
      exact ⟨rfl, rfl⟩
    · cases hmain.symm.trans hfailure
  · intro h
    rcases h with ⟨rfl, rfl⟩
    exact ⟨Or.inl rfl, _, load_broken, rfl⟩

theorem ofProject_outcome_workshop :
    Settings.initial.validate = .ok () ∧ workshop.canonical ⟨"/app"⟩ = .ok ⟨"/app"⟩ ∧
    workshop.top.WellFormed ∧
    exists analysis, ofProject workshop Settings.initial ⟨"/app"⟩ = .ok analysis ∧
      (forall failure, Report.ofProject workshop Settings.initial ⟨"/app"⟩ = .error failure <->
        failure = .rootNotFound "App" ∧
        forall d, d ∈ analysis.registry.definitions -> d.name ≠ "App") ∧
      analysis.files = [⟨"/app/broken.jsx"⟩, ⟨"/app/main.jsx"⟩] ∧
      analysis.diagnostics =
        [.directoryRead ⟨"/app/gone.jsx"⟩
            "IO error for operation on /app/gone.jsx: No such file or directory (os error 2)",
          .directoryRead ⟨"/app/loop"⟩
            "File system loop found: /app/loop points to an ancestor /app",
          .parse ⟨"/app/broken.jsx"⟩
            "IO error: /app/broken.jsx: stream did not contain valid UTF-8"] := by
  have hvalid : Settings.initial.validate = .ok () := rfl
  rcases ofProject_outcome hvalid canonical_workshop wellFormed_workshop with
    ⟨analysis, rule, faults, failures, hproject, hrule, hfiles, hreport, _, hdiagnostics,
      hdirectories, hwalk, _, hincreasing, hfailures, _⟩
  cases ofTexts_plainRule.symm.trans hrule
  rw [files_workshop] at hfiles
  have hfaults : faults = [.unusable ⟨"/app/gone.jsx"⟩ .notFound, .loop ⟨"/app/loop"⟩ ⟨"/app"⟩] := by
    rw [walk_workshop (excludes_plainRule _)] at hwalk
    exact List.map_injective_iff.mpr (fun _ _ => Except.error.inj) hwalk.symm
  rw [hfiles] at hfailures
  have hfailed := failures_workshop hincreasing hfailures
  refine ⟨hvalid, canonical_workshop, wellFormed_workshop, analysis, hproject, hreport, hfiles, ?_⟩
  rw [hdiagnostics, hdirectories, hfaults, hfailed]
  rfl

end Analysis
end JsxUsage
