import JsxUsage.Proofs.Descents

/-!
# Exclusions of a catalog

A pattern excludes the paths that it accepts, with everything below them.  A path
is also excluded where a pattern accepts the name `_` below it, whether there is
such a name or not.  This module proves which files that costs: a file that no
pattern accepts, and none of whose directories a pattern accepts, is listed if and
only if no pattern accepts the name `_` below the file or below one of the
directories.
-/

namespace JsxUsage

/-!
# Relative paths

The path of a file that is reached from a root, relative to the root, is written
by the names alone, however the root is spelled.
-/

namespace Path

theorem isIdle_of_mem_map {names : List String} (h : forall name, name ∈ names -> IsName name)
    {piece : List Char} (hpiece : piece ∈ names.map String.toList) : isIdle piece = false := by
  rcases List.mem_map.mp hpiece with ⟨name, hname, rfl⟩
  exact isIdle_of_isName (h name hname)

theorem pieces_below {names : List String} (hnames : forall name, name ∈ names -> IsName name)
    {p : Path} (hp : p.text ≠ "") :
    exists front, front ≠ [] ∧
      (pieces p.text.toList = front ∨ pieces p.text.toList = front ++ [[]]) ∧
      pieces (p.below names).text.toList = front ++ names.map String.toList := by
  induction names generalizing p with
  | nil =>
      refine ⟨pieces p.text.toList, pieces_ne_nil _, Or.inl rfl, ?_⟩
      rw [below_nil, List.map_nil, List.append_nil]
  | cons name names ih =>
      rcases List.forall_mem_cons.mp hnames with ⟨hname, hrest⟩
      have hrelative := isAbsolute_of_isName hname
      rcases pieces_join hp hrelative with ⟨front, hne, hfront, hjoin⟩
      rw [pieces_of_isName hname] at hjoin
      rcases ih hrest (text_join_ne hp hrelative) with ⟨longer, _, hlonger | hlonger, hbelow⟩
      · refine ⟨front, hne, hfront, ?_⟩
        rw [below_cons, hbelow, ← hlonger, hjoin, List.map_cons, List.append_assoc]
        rfl
      · -- A path that ends with a name ends with no slash.
        rw [hjoin] at hlonger
        have hempty := List.singleton_inj.mp (List.append_inj_right' hlonger rfl)
        exact absurd (String.toList_inj.mp hempty) hname.nonempty

theorem isAbsolute_below {names : List String} (hnames : forall name, name ∈ names -> IsName name)
    {p : Path} (hp : p.text ≠ "") : (p.below names).isAbsolute = p.isAbsolute := by
  induction names generalizing p with
  | nil => rfl
  | cons name names ih =>
      rcases List.forall_mem_cons.mp hnames with ⟨hname, hrest⟩
      have hrelative := isAbsolute_of_isName hname
      rw [below_cons, ih hrest (text_join_ne hp hrelative), isAbsolute_join hp hrelative]

theorem parts_below {names : List String} (hnames : forall name, name ∈ names -> IsName name)
    {p : Path} (hp : p.text ≠ "") : (p.below names).parts = p.parts ++ names.map Part.name := by
  induction names generalizing p with
  | nil => rw [below_nil, List.map_nil, List.append_nil]
  | cons name names ih =>
      rcases List.forall_mem_cons.mp hnames with ⟨hname, hrest⟩
      rw [below_cons, ih hrest (text_join_ne hp (isAbsolute_of_isName hname)), parts_join p hname,
        List.map_cons, List.append_assoc]
      rfl

theorem dropWhile_isIdle {ps : List (List Char)}
    (h : forall piece, piece ∈ ps -> isIdle piece = false) : ps.dropWhile isIdle = ps := by
  cases ps with
  | nil => rfl
  | cons piece others =>
      rw [List.dropWhile_cons_of_neg (by rw [h piece List.mem_cons_self]; exact Bool.false_ne_true)]

theorem trimIdle_eq_self {ps : List (List Char)}
    (h : forall piece, piece ∈ ps -> isIdle piece = false) : trimIdle ps = ps := by
  rw [trimIdle, dropWhile_isIdle, List.reverse_reverse]
  intro piece hpiece
  exact h piece (List.mem_reverse.mp hpiece)

theorem isIdle_of_partOf_eq_none {first : Bool} {piece : List Char} (h : partOf first piece = none) :
    isIdle piece = true := by
  unfold partOf at h
  split_ifs at h <;> simp_all [isIdle, partOf]

/-- All parts of the front are dropped, with what stands for no part behind them. -/
theorem dropPieces_front (front : List (List Char)) (first : Bool) {ps : List (List Char)}
    (h : forall piece, piece ∈ ps -> isIdle piece = false) :
    dropPieces (partsOf first front).length first (front ++ ps) = ps := by
  induction front generalizing first with
  | nil =>
      rw [partsOf, List.length_nil, List.nil_append, dropPieces]
      exact dropWhile_isIdle h
  | cons piece others ih =>
      have hothers := ih false
      rw [partsOf_false] at hothers
      rw [partsOf, List.cons_append]
      cases hpart : partOf first piece with
      | some part =>
          rw [Option.toList_some, List.singleton_append, List.length_cons, dropPieces, hpart]
          exact hothers
      | none =>
          rw [Option.toList_none, List.nil_append]
          cases hcount : (others.filterMap (partOf false)).length with
          | zero =>
              rw [hcount, dropPieces] at hothers
              rw [dropPieces, List.dropWhile_cons_of_pos (isIdle_of_partOf_eq_none hpart)]
              exact hothers
          | succ n =>
              rw [hcount] at hothers
              rw [dropPieces, hpart]
              exact hothers

section Below

variable {names : List String} (hnames : forall name, name ∈ names -> IsName name) {root : Path}
  (hroot : root.text ≠ "")
include hnames hroot

theorem textFrom_below :
    (root.below names).textFrom root.parts.length = "/".intercalate names := by
  have hidle : forall piece, piece ∈ names.map String.toList -> isIdle piece = false :=
    fun piece hpiece => isIdle_of_mem_map hnames hpiece
  have htext : String.ofList (['/'].intercalate (trimIdle (names.map String.toList))) =
      "/".intercalate names := by
    rw [trimIdle_eq_self hidle, ← String.toList_inj, String.toList_ofList,
      String.toList_intercalate]
    rfl
  rcases pieces_below hnames hroot with ⟨front, hne, hfront, hbelow⟩
  cases habsolute : root.isAbsolute with
  | false =>
      have hdrop := dropPieces_front front true hidle
      have hparts : root.parts = partsOf true front := by
        rw [parts_relative habsolute, partsOf_front hne hfront]
      have hpositive := List.length_pos_iff.mpr (parts_ne_nil hroot)
      rcases Nat.exists_eq_succ_of_ne_zero hpositive.ne' with ⟨n, hlength⟩
      rw [← hbelow, ← hparts, hlength] at hdrop
      rw [hlength, textFrom_relative_succ ((isAbsolute_below hnames hroot).trans habsolute), hdrop,
        htext]
  | true =>
      rcases isAbsolute_iff.mp ((isAbsolute_below hnames hroot).trans habsolute) with ⟨rest, hrest⟩
      have hdrop := dropPieces_front front false hidle
      have hparts : root.parts = .root :: partsOf false front := by
        rw [parts_eq, habsolute, Bool.not_true, partsOf_front hne hfront]
        rfl
      -- The empty piece in front of the first slash is no part.
      have hslash : dropPieces (partsOf false front).length false (pieces ('/' :: rest)) =
          dropPieces (partsOf false front).length false (pieces rest) := by
        rw [pieces_slash]
        cases (partsOf false front).length <;> simp [dropPieces, isIdle, partOf]
      rw [← hbelow, hrest, hslash] at hdrop
      rw [hparts, List.length_cons, textFrom_absolute_succ hrest, hdrop, htext]

theorem stripStart?_below : (root.below names).stripStart? root = some ⟨"/".intercalate names⟩ := by
  have hdrop : dropStart (root.below names).parts root.parts = some (names.map Part.name) :=
    dropStart_eq_some_iff.mpr (parts_below hnames hroot)
  simp only [stripStart?, hdrop, textFrom_below hnames hroot]

end Below

theorem pieces_names {names : List String} (hnames : forall name, name ∈ names -> IsName name)
    (hne : names ≠ []) : pieces ("/".intercalate names).toList = names.map String.toList := by
  rw [String.toList_intercalate]
  refine pieces_intercalate ?_ (by simpa using hne)
  intro piece hpiece
  rcases List.mem_map.mp hpiece with ⟨name, hname, rfl⟩
  exact (hnames name hname).slashFree

theorem empty_not_mem {names : List String} (hnames : forall name, name ∈ names -> IsName name) :
    [] ∉ names.map String.toList := by
  intro hmem
  cases isIdle_of_mem_map hnames hmem

theorem names_text_ne {names : List String} (hnames : forall name, name ∈ names -> IsName name)
    (hne : names ≠ []) : "/".intercalate names ≠ "" := by
  intro hempty
  apply empty_not_mem hnames
  rw [← pieces_names hnames hne, hempty]
  exact List.mem_singleton_self []

/-- A name behind names is written with a slash in front. -/
theorem text_join_names {names : List String} (hnames : forall name, name ∈ names -> IsName name)
    (hne : names ≠ []) {q : Path} (hq : q.isAbsolute = false) :
    ((Path.mk ("/".intercalate names)).join q).text = "/".intercalate names ++ "/" ++ q.text := by
  rcases toList_join (p := ⟨"/".intercalate names⟩) (names_text_ne hnames hne) hq with
    ⟨front, hfront | hfront, htext⟩
  · rw [← String.toList_inj, htext, ← hfront]
    simp
  · -- A slash at the end would stand for an empty name.
    refine absurd ?_ (empty_not_mem hnames)
    rw [← pieces_names hnames hne, hfront, pieces_append]
    exact List.mem_append_right _ (List.mem_singleton_self [])

end Path

/-!
# Excluded paths
-/

namespace CatalogRule

theorem ofTexts_eq {extensions patterns known : List String} {globs : List Glob}
    (hextensions : extensions.map (fun e => Text.lower (withoutDots e)) = known)
    (hglobs : readGlobs patterns = .ok globs) :
    ofTexts extensions patterns = .ok ⟨known, globs⟩ := by
  rw [ofTexts, hglobs, hextensions]
  rfl

/-- Some pattern accepts the text. -/
def covers (rule : CatalogRule) (text : String) : Bool :=
  rule.exclude.any fun glob => glob.accepts text

theorem excludes_root (rule : CatalogRule) {root : Path} (hroot : root.text ≠ "") :
    rule.excludes root root = false := by
  have hnone : forall name, name ∈ ([] : List String) -> Path.IsName name := by simp
  have hstrip := Path.stripStart?_below hnone hroot
  rw [Path.below_nil] at hstrip
  have htext : (relative root root).text = "" := by
    rw [relative, hstrip]
    rfl
  simp [excludes, htext]

theorem excludes_below (rule : CatalogRule) {root : Path} (hroot : root.text ≠ "")
    {names : List String} (hnames : forall name, name ∈ names -> Path.IsName name)
    (hne : names ≠ []) :
    rule.excludes root (root.below names) =
      (rule.covers ("/".intercalate names) || rule.covers ("/".intercalate names ++ "/_")) := by
  have hinside : relative root (root.below names) = ⟨"/".intercalate names⟩ := by
    rw [relative, Path.stripStart?_below hnames hroot]
    rfl
  have hprobe : ((Path.mk ("/".intercalate names)).join ⟨"_"⟩).text =
      "/".intercalate names ++ "/_" := by
    rw [Path.text_join_names hnames hne rfl, String.append_assoc]
    rfl
  rw [excludes, hinside, if_neg (by simpa using Path.names_text_ne hnames hne), hprobe,
    Bool.eq_iff_iff]
  simp [covers, and_or_left, exists_or]

end CatalogRule

/-!
# Listed files
-/

namespace Catalog

theorem mem_scan_iff {t : FileTree} {rule : CatalogRule} {root q : Path} :
    q ∈ (scan t rule root).files <->
      rule.hasExtension q = true ∧ exists names, t.Reaches root names ∧ q = root.below names ∧
        FileTree.Clear (rule.excludes root) root names := by
  rw [scan, List.mem_mergeSort, List.mem_filter, FileTree.mem_listed_walk, and_comm]

theorem clear_excludes_iff (rule : CatalogRule) {root : Path} (hroot : root.text ≠ "")
    {names : List String} (hnames : forall name, name ∈ names -> Path.IsName name) :
    FileTree.Clear (rule.excludes root) root names <->
      forall front, front <+: names -> front ≠ [] ->
        rule.covers ("/".intercalate front) = false ∧
          rule.covers ("/".intercalate front ++ "/_") = false := by
  have hfront : forall front, front <+: names -> front ≠ [] ->
      (rule.excludes root (root.below front) = false <->
        rule.covers ("/".intercalate front) = false ∧
          rule.covers ("/".intercalate front ++ "/_") = false) := by
    intro front hfront hne
    rw [CatalogRule.excludes_below rule hroot (fun name hname => hnames name (hfront.mem hname)) hne,
      Bool.or_eq_false_iff]
  constructor
  · intro hclear front hprefix hne
    exact (hfront front hprefix hne).mp (hclear front hprefix)
  · intro hcovers front hprefix
    by_cases hne : front = []
    · rw [hne]
      exact rule.excludes_root hroot
    · exact (hfront front hprefix hne).mpr (hcovers front hprefix hne)

theorem names_unique {root : Path} (hroot : root.text ≠ "") {names others : List String}
    (hnames : forall name, name ∈ names -> Path.IsName name)
    (hothers : forall name, name ∈ others -> Path.IsName name)
    (h : root.below names = root.below others) : names = others := by
  have hparts := congrArg Path.parts h
  rw [Path.parts_below hnames hroot, Path.parts_below hothers hroot] at hparts
  refine List.map_injective_iff.mpr ?_ (List.append_cancel_left hparts)
  intro a b hab
  exact Part.name.inj hab

section Scan

variable {t : FileTree} (htree : t.top.WellFormed) (rule : CatalogRule) {root : Path}
  {names : List String} (hreaches : t.Reaches root names)
include htree hreaches

theorem mem_scan_below_iff :
    root.below names ∈ (scan t rule root).files <->
      rule.hasExtension (root.below names) = true ∧
        forall front, front <+: names -> front ≠ [] ->
          rule.covers ("/".intercalate front) = false ∧
            rule.covers ("/".intercalate front ++ "/_") = false := by
  have hroot := FileTree.text_ne_of_reaches hreaches
  have hnames := FileTree.isName_of_reaches htree hreaches
  rw [mem_scan_iff, ← clear_excludes_iff rule hroot hnames]
  refine and_congr_right fun _ => ⟨?_, fun hclear => ⟨names, hreaches, rfl, hclear⟩⟩
  intro h
  rcases h with ⟨others, hothers, hsame, hclear⟩
  rw [names_unique hroot hnames (FileTree.isName_of_reaches htree hothers) hsame]
  exact hclear

/-- A file that no pattern accepts, and none of whose directories a pattern accepts, is
listed if and only if no pattern accepts the name `_` below the file or below one of the
directories. -/
theorem uncovered_file_is_listed_iff
    (hextension : rule.hasExtension (root.below names) = true)
    (huncovered : forall front, front <+: names -> front ≠ [] ->
      rule.covers ("/".intercalate front) = false) :
    root.below names ∈ (scan t rule root).files <->
      forall front, front <+: names -> front ≠ [] ->
        rule.covers ("/".intercalate front ++ "/_") = false := by
  rw [mem_scan_below_iff htree rule hreaches]
  constructor
  · intro h front hprefix hne
    rcases h with ⟨_, hfree⟩
    exact (hfree front hprefix hne).right
  · intro hprobes
    refine ⟨hextension, ?_⟩
    intro front hprefix hne
    exact ⟨huncovered front hprefix hne, hprobes front hprefix hne⟩

end Scan

/-- A project with one file of its own and one of a library. -/
def library : FileTree :=
  ⟨.directory [("app", .directory [
    ("lib", .directory [("index.js", .file (.text ""))]),
    ("src", .directory [("App.js", .file (.text ""))])])], []⟩

theorem wellFormed_library : library.top.WellFormed := by
  simp only [library, Entry.wellFormed_directory_iff, Entry.wellFormed_file,
    List.forall_mem_cons, List.not_mem_nil, false_imp_iff, implies_true]
  decide

theorem reaches_library : library.Reaches ⟨"/app"⟩ ["src", "App.js"] := by
  have hresolve : library.resolve false ⟨"/app"⟩ = .ok ["app"] :=
    FileTree.resolve_of_pieces (by decide) (by decide) rfl (by nofun) false
  refine ⟨["app"], _, by rw [FileTree.entry, hresolve]; rfl, ?_⟩
  exact .directory (List.mem_cons_of_mem _ (List.mem_singleton_self _))
    (.directory (List.mem_singleton_self _) .file)

theorem front_library {front : List String} (h : front <+: ["src", "App.js"]) (hne : front ≠ []) :
    front = ["src"] ∨ front = ["src", "App.js"] := by
  rcases List.prefix_cons_iff.mp h with rfl | ⟨rest, rfl, hrest⟩
  · exact absurd rfl hne
  · rcases List.prefix_cons_iff.mp hrest with rfl | ⟨last, rfl, hlast⟩
    · exact Or.inl rfl
    · rw [List.prefix_nil.mp hlast]
      exact Or.inr rfl

/-- The files of scripts, less those of the library and those that begin with `_`. -/
def ownScripts : CatalogRule :=
  ⟨["js"], [⟨[.char 'l', .char 'i', .char 'b', .char '/', .anyDirectories]⟩,
    ⟨[.anyDirectories, .char '_', .anyRun, .char '.', .char 'j', .char 's']⟩]⟩

theorem ofTexts_ownScripts : CatalogRule.ofTexts [".JS"] ["lib/**", "**/_*.js"] = .ok ownScripts :=
  CatalogRule.ofTexts_eq (by decide +kernel) (by decide +kernel)

theorem uncovered_file_is_listed_iff_library :
    library.top.WellFormed ∧ library.Reaches ⟨"/app"⟩ ["src", "App.js"] ∧
      CatalogRule.ofTexts [".JS"] ["lib/**", "**/_*.js"] = .ok ownScripts ∧
      ⟨"/app/src/App.js"⟩ ∈ (scan library ownScripts ⟨"/app"⟩).files := by
  refine ⟨wellFormed_library, reaches_library, ofTexts_ownScripts, ?_⟩
  refine (uncovered_file_is_listed_iff wellFormed_library ownScripts reaches_library
    (by decide +kernel) ?_).mpr ?_
  · intro front hfront hne
    rcases front_library hfront hne with rfl | rfl <;> decide +kernel
  · intro front hfront hne
    rcases front_library hfront hne with rfl | rfl <;> decide +kernel

/-- The files of scripts, less the file `_` of `src`. -/
def withoutBlank : CatalogRule :=
  ⟨["js"], [⟨[.char 's', .char 'r', .char 'c', .char '/', .char '_']⟩]⟩

theorem ofTexts_withoutBlank : CatalogRule.ofTexts ["js"] ["src/_"] = .ok withoutBlank :=
  CatalogRule.ofTexts_eq (by decide +kernel) (by decide +kernel)

/-- The pattern `src/_` accepts neither `src` nor the file in it, and the file is not listed. -/
theorem probe_drops_uncovered_file :
    library.top.WellFormed ∧ library.Reaches ⟨"/app"⟩ ["src", "App.js"] ∧
      CatalogRule.ofTexts ["js"] ["src/_"] = .ok withoutBlank ∧
      withoutBlank.hasExtension ⟨"/app/src/App.js"⟩ = true ∧
      withoutBlank.covers "src" = false ∧ withoutBlank.covers "src/App.js" = false ∧
      ⟨"/app/src/App.js"⟩ ∉ (scan library withoutBlank ⟨"/app"⟩).files := by
  refine ⟨wellFormed_library, reaches_library, ofTexts_withoutBlank, by decide +kernel,
    by decide +kernel, by decide +kernel, ?_⟩
  intro hlisted
  rcases (mem_scan_below_iff wellFormed_library withoutBlank reaches_library).mp hlisted with
    ⟨_, hfree⟩
  have hprobe := (hfree ["src"] (List.prefix_append ["src"] ["App.js"]) (by simp)).right
  revert hprobe
  decide +kernel

end Catalog
end JsxUsage
