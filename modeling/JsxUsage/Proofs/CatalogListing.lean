import JsxUsage.Proofs.Arrivals
import JsxUsage.Proofs.CatalogExclusion

/-!
# What a catalog lists

A catalog lists the files to which one comes from its root, less those that are
excluded and those without one of the extensions asked for.  The extensions are
lower-cased beyond ASCII, while the extension of a file is compared up to the case of
ASCII letters only.
-/

namespace JsxUsage

/-!
# Extensions up to case
-/

namespace CatalogRule

/-- Two texts differ at most in the case of ASCII letters. -/
def EqUpToCase (a b : String) : Prop :=
  a.toList.map Char.toLower = b.toList.map Char.toLower

/-- The path has an extension that is one of the known ones, up to case. -/
def HasOneOf (known : List String) (q : Path) : Prop :=
  exists extension, q.extension? = some extension ∧
    exists e, e ∈ known ∧ EqUpToCase e extension

theorem hasExtension_iff {rule : CatalogRule} {q : Path} :
    rule.hasExtension q = true <-> HasOneOf rule.extensions q := by
  unfold hasExtension HasOneOf
  cases q.extension? with
  | none => simp
  | some extension => simp [sameUpToCase, EqUpToCase]

/-- The lower-case form of an extension differs from it at most in the case of ASCII letters. -/
def PlainCase (extension : String) : Prop :=
  EqUpToCase (Text.lower (withoutDots extension)) (withoutDots extension)

theorem lowerFrom_of_ascii {cs : List Char} (h : forall c, c ∈ cs -> c.toNat < 128)
    (before : List Char) : Text.lowerFrom before cs = cs.map Char.toLower := by
  induction cs generalizing before with
  | nil => rfl
  | cons c rest ih =>
      rcases List.forall_mem_cons.mp h with ⟨hc, hrest⟩
      have hsigma : (c == 'Σ') = false := by
        rw [beq_eq_false_iff_ne]
        intro heq
        subst heq
        exact absurd hc (by decide)
      rw [Text.lowerFrom, hsigma, ih hrest]
      simp [Text.lowerChar, hc]

theorem plainCase_of_ascii {extension : String}
    (h : forall c, c ∈ extension.toList -> c.toNat < 128) : PlainCase extension := by
  have hascii : forall c, c ∈ (withoutDots extension).toList -> c.toNat < 128 := by
    intro c hc
    rw [withoutDots, String.toList_ofList] at hc
    exact h c ((List.dropWhile_sublist _).mem hc)
  rw [PlainCase, EqUpToCase, Text.lower, String.toList_ofList, lowerFrom_of_ascii hascii,
    List.map_map]
  have htwice : forall n : Fin 128,
      (Char.ofNat n).toLower.toLower = (Char.ofNat n).toLower := by decide
  refine List.map_congr_left ?_
  intro c hc
  have hchar := htwice ⟨c.toNat, hascii c hc⟩
  rw [Char.ofNat_toNat] at hchar
  exact hchar

theorem hasOneOf_lower_iff {extensions : List String}
    (h : forall e, e ∈ extensions -> PlainCase e) {q : Path} :
    HasOneOf (extensions.map fun e => Text.lower (withoutDots e)) q <->
      HasOneOf (extensions.map withoutDots) q := by
  unfold HasOneOf
  refine exists_congr fun extension => and_congr_right fun _ => ?_
  simp only [List.mem_map, exists_exists_and_eq_and]
  refine exists_congr fun e => and_congr_right fun he => ?_
  have hplain : EqUpToCase (Text.lower (withoutDots e)) (withoutDots e) := h e he
  rw [EqUpToCase, EqUpToCase, hplain]

/-!
# Several patterns
-/

theorem readGlobs_eq_ok_iff {texts : List String} {globs : List Glob} :
    readGlobs texts = .ok globs <->
      List.Forall₂ (fun text glob => Glob.ofText text = .ok glob) texts globs := by
  induction texts generalizing globs with
  | nil =>
      rw [readGlobs, List.forall₂_nil_left_iff, Except.ok.injEq, eq_comm]
  | cons text rest ih =>
      rw [readGlobs, List.forall₂_cons_left_iff]
      cases Glob.ofText text with
      | error fault => simp
      | ok glob =>
          cases hrest : readGlobs rest with
          | error fault => simp [← ih, hrest, Except.map]
          | ok others =>
              simp only [Except.map, Except.ok.injEq, ← ih, hrest]
              constructor
              · intro heq
                subst heq
                exact ⟨glob, others, rfl, rfl, rfl⟩
              · intro h
                rcases h with ⟨_, _, rfl, rfl, rfl⟩
                rfl

theorem ofTexts_eq_ok_iff {extensions patterns : List String} {rule : CatalogRule} :
    ofTexts extensions patterns = .ok rule <->
      readGlobs patterns = .ok rule.exclude ∧
        rule.extensions = extensions.map fun e => Text.lower (withoutDots e) := by
  rcases rule with ⟨known, globs⟩
  rw [ofTexts]
  cases readGlobs patterns with
  | error fault => simp [Except.map]
  | ok others => simp [Except.map, and_comm, eq_comm]

/-- Two lists of patterns can be read as one, in any order. -/
theorem ofTexts_of_perm {extensions patterns more all : List String} {rule moreRule : CatalogRule}
    (hrule : ofTexts extensions patterns = .ok rule)
    (hmore : ofTexts extensions more = .ok moreRule) (hall : all.Perm (patterns ++ more)) :
    exists both, ofTexts extensions all = .ok both ∧
      both.exclude.Perm (rule.exclude ++ moreRule.exclude) := by
  have hfirst := readGlobs_eq_ok_iff.mp (ofTexts_eq_ok_iff.mp hrule).1
  have hsecond := readGlobs_eq_ok_iff.mp (ofTexts_eq_ok_iff.mp hmore).1
  rcases List.perm_comp_forall₂ hall (List.rel_append hfirst hsecond) with ⟨globs, hglobs, hperm⟩
  refine ⟨⟨_, globs⟩, ofTexts_eq rfl (readGlobs_eq_ok_iff.mpr hglobs), hperm⟩

theorem excludes_of_perm {rule moreRule both : CatalogRule}
    (h : both.exclude.Perm (rule.exclude ++ moreRule.exclude)) (root path : Path) :
    both.excludes root path = (rule.excludes root path || moreRule.excludes root path) := by
  by_cases hinside : (relative root path).text = ""
  · simp [excludes, hinside]
  · simp only [excludes, beq_iff_eq, if_neg hinside, h.any_eq, List.any_append]

end CatalogRule

/-!
# Listed files
-/

namespace Catalog

open CatalogRule (HasOneOf PlainCase withoutDots)

/-- The path exists and is no directory.  One comes to it from `root`, and neither it nor
a path on the way below the root is excluded. -/
def Finds (t : FileTree) (rule : CatalogRule) (root q : Path) : Prop :=
  t.exists? q = true ∧ ¬ t.HoldsDirectory q ∧
    exists names, t.ComesTo root names ∧ q = root.below names ∧
      forall front, front <+: names -> front ≠ [] -> rule.excludes root (root.below front) = false

theorem clear_iff (rule : CatalogRule) {root : Path} (hroot : root.text ≠ "")
    {names : List String} :
    FileTree.Clear (rule.excludes root) root names <->
      forall front, front <+: names -> front ≠ [] ->
        rule.excludes root (root.below front) = false := by
  constructor
  · intro hclear front hfront _
    exact hclear front hfront
  · intro hfree front hfront
    by_cases hne : front = []
    · rw [hne]
      exact rule.excludes_root hroot
    · exact hfree front hfront hne

theorem finds_iff {t : FileTree} (htree : t.top.WellFormed) {rule : CatalogRule} {root q : Path} :
    Finds t rule root q <->
      exists names, t.Reaches root names ∧ q = root.below names ∧
        FileTree.Clear (rule.excludes root) root names := by
  constructor
  · intro h
    rcases h with ⟨hexists, hplain, names, hcomes, rfl, hfree⟩
    have hreaches := (FileTree.reaches_iff_comesTo htree).mpr
      ⟨hcomes, FileTree.holdsFile_iff.mpr ⟨hexists, hplain⟩⟩
    exact ⟨names, hreaches, rfl,
      (clear_iff rule (FileTree.text_ne_of_reaches hreaches)).mpr hfree⟩
  · intro h
    rcases h with ⟨names, hreaches, rfl, hclear⟩
    rcases (FileTree.reaches_iff_comesTo htree).mp hreaches with ⟨hcomes, hfile⟩
    rcases FileTree.holdsFile_iff.mp hfile with ⟨hexists, hplain⟩
    exact ⟨hexists, hplain, names, hcomes, rfl,
      (clear_iff rule (FileTree.text_ne_of_reaches hreaches)).mp hclear⟩

theorem mem_scan_iff_finds {t : FileTree} (htree : t.top.WellFormed)
    {extensions patterns : List String} {rule : CatalogRule}
    (hrule : CatalogRule.ofTexts extensions patterns = .ok rule) {root q : Path} :
    q ∈ (scan t rule root).files <->
      HasOneOf (extensions.map fun e => Text.lower (withoutDots e)) q ∧ Finds t rule root q := by
  rw [mem_scan_iff, ← finds_iff htree, CatalogRule.hasExtension_iff,
    (CatalogRule.ofTexts_eq_ok_iff.mp hrule).2]

theorem mem_scan_of_perm {t : FileTree} (htree : t.top.WellFormed)
    {rule moreRule both : CatalogRule} (hsame : moreRule.extensions = rule.extensions)
    (hboth : both.extensions = rule.extensions)
    (hperm : both.exclude.Perm (rule.exclude ++ moreRule.exclude)) {root q : Path} :
    q ∈ (scan t both root).files <->
      q ∈ (scan t rule root).files ∧ q ∈ (scan t moreRule root).files := by
  have hclear : forall names, FileTree.Clear (both.excludes root) root names <->
      FileTree.Clear (rule.excludes root) root names ∧
        FileTree.Clear (moreRule.excludes root) root names := by
    intro names
    simp only [FileTree.Clear, CatalogRule.excludes_of_perm hperm, Bool.or_eq_false_iff,
      forall_and]
  simp only [mem_scan_iff, CatalogRule.hasExtension_iff, hsame, hboth, hclear]
  constructor
  · intro h
    rcases h with ⟨hextension, names, hreaches, hq, hfirst, hsecond⟩
    exact ⟨⟨hextension, names, hreaches, hq, hfirst⟩, hextension, names, hreaches, hq, hsecond⟩
  · intro h
    rcases h with ⟨⟨hextension, names, hreaches, rfl, hfirst⟩, _, others, hothers, hq, hsecond⟩
    -- Both ways are the same, since a path spells its names.
    have hnames := names_unique (FileTree.text_ne_of_reaches hreaches)
      (FileTree.isName_of_reaches htree hreaches) (FileTree.isName_of_reaches htree hothers) hq
    subst hnames
    exact ⟨hextension, names, hreaches, rfl, hfirst, hsecond⟩

/-- There are finitely many ways from the root.  The listed files stand in strictly
increasing order, and a path is listed if and only if it is found and has one of the
lower-cased extensions.  Where lower-casing changes ASCII letters only, these are the
extensions as they are given.  Two lists of patterns together, in any order, list what
each of them lists. -/
theorem scan_lists_exactly_found_files {t : FileTree} (htree : t.top.WellFormed)
    {extensions patterns : List String} {rule : CatalogRule}
    (hrule : CatalogRule.ofTexts extensions patterns = .ok rule) (root : Path) :
    {names | t.ComesTo root names}.Finite ∧
      (scan t rule root).files.Pairwise (fun p q => p.compare q = .lt) ∧
      (forall q, q ∈ (scan t rule root).files <->
        HasOneOf (extensions.map fun e => Text.lower (withoutDots e)) q ∧ Finds t rule root q) ∧
      ((forall e, e ∈ extensions -> PlainCase e) ->
        forall q, q ∈ (scan t rule root).files <->
          HasOneOf (extensions.map withoutDots) q ∧ Finds t rule root q) ∧
      forall more moreRule all, CatalogRule.ofTexts extensions more = .ok moreRule ->
        all.Perm (patterns ++ more) ->
          exists both, CatalogRule.ofTexts extensions all = .ok both ∧
            forall q, q ∈ (scan t both root).files <->
              q ∈ (scan t rule root).files ∧ q ∈ (scan t moreRule root).files := by
  refine ⟨FileTree.finite_comesTo htree root, increasing_scan htree rule root,
    fun q => mem_scan_iff_finds htree hrule, ?_, ?_⟩
  · intro hplain q
    rw [mem_scan_iff_finds htree hrule, CatalogRule.hasOneOf_lower_iff hplain]
  · intro more moreRule all hmore hall
    rcases CatalogRule.ofTexts_of_perm hrule hmore hall with ⟨both, hboth, hperm⟩
    have hknown := (CatalogRule.ofTexts_eq_ok_iff.mp hrule).2
    refine ⟨both, hboth, fun q => mem_scan_of_perm htree ?_ ?_ hperm⟩
    · rw [hknown, (CatalogRule.ofTexts_eq_ok_iff.mp hmore).2]
    · rw [hknown, (CatalogRule.ofTexts_eq_ok_iff.mp hboth).2]

/-- A project with the given entries. -/
def project (entries : List (String × Entry)) : FileTree :=
  ⟨.directory [("app", .directory entries)], []⟩

theorem entry_project (entries : List (String × Entry)) :
    (project entries).entry false ⟨"/app"⟩ = .ok (["app"], .directory entries) := by
  have hresolve : (project entries).resolve false ⟨"/app"⟩ = .ok ["app"] :=
    FileTree.resolve_of_pieces (by decide) (by decide) rfl (by nofun) false
  rw [FileTree.entry, hresolve]
  rfl

theorem stands_project {entries : List (String × Entry)}
    (hproject : (project entries).top.WellFormed) {name : String} {e : Entry}
    (hmember : (name, e) ∈ entries) :
    (project entries).Stands ⟨"/app"⟩ [name] [["app"]] (Path.join ⟨"/app"⟩ ⟨name⟩) ["app", name]
      e := by
  have hroot := FileTree.stands_root (entry_project entries)
  exact FileTree.stands_enter hproject hroot (FileTree.entry_followed hroot.found (by nofun))
    (FileTree.opensAnew_of_plain hroot (by nofun) _) hmember

theorem finds_of_stands {t : FileTree} {rule : CatalogRule} {root path : Path}
    {names place : List String} {opened : List (List String)} {content : Content}
    (h : t.Stands root names opened path place (.file content))
    (hfree : forall front, front ∈ names.inits -> front ≠ [] ->
      rule.excludes root (root.below front) = false) : Finds t rule root path := by
  have hfile : t.HoldsFile path := ⟨_, _, FileTree.entry_followed h.found (by nofun)⟩
  rcases FileTree.holdsFile_iff.mp hfile with ⟨hexists, hplain⟩
  refine ⟨hexists, hplain, names, h.comes, h.spelled, ?_⟩
  intro front hfront
  exact hfree front ((List.mem_inits front names).mpr hfront)

/-- A project with a link to its sources, one to the project itself and one to nothing. -/
def linkedEntries : List (String × Entry) :=
  [("again", .link ⟨"/app"⟩), ("gone", .link ⟨"/nowhere"⟩), ("more", .link ⟨"src"⟩),
    ("src", .directory [("Panel.JSX", .file (.text ""))])]

theorem wellFormed_linked : (project linkedEntries).top.WellFormed := by
  simp only [project, linkedEntries, Entry.wellFormed_directory_iff, Entry.wellFormed_file,
    List.forall_mem_cons, List.not_mem_nil, false_imp_iff, implies_true, Entry.WellFormed.link]
  decide

theorem entry_more : (project linkedEntries).entry true ⟨"/app/more"⟩ =
    .ok (["app", "src"], .directory [("Panel.JSX", .file (.text ""))]) := by
  have hsources : (project linkedEntries).Leads true ["app", "src"] 39 ["app"] ["src"] :=
    .down ⟨_, rfl, rfl⟩ (by decide) rfl (by nofun) .done
  have hmore : (project linkedEntries).Leads true ["app", "src"] 40 ["app"] ["more"] :=
    .link ⟨_, rfl, rfl⟩ (by decide) rfl (Or.inr rfl) (by decide) hsources
  rw [FileTree.entry_eq_ok_iff, FileTree.resolve_eq_ok_iff]
  refine ⟨⟨by decide, ?_⟩, rfl⟩
  exact .here ⟨_, rfl, rfl⟩ (Or.inl rfl) (.down ⟨_, rfl, rfl⟩ (by decide) rfl (by nofun) hmore)

theorem stands_panel : (project linkedEntries).Stands ⟨"/app"⟩ ["more", "Panel.JSX"]
    [["app", "src"], ["app"]] ⟨"/app/more/Panel.JSX"⟩ ["app", "src", "Panel.JSX"]
      (.file (.text "")) := by
  have hmember : ("more", Entry.link ⟨"src"⟩) ∈ linkedEntries := by simp [linkedEntries]
  have hmore := stands_project wellFormed_linked hmember
  exact FileTree.stands_enter wellFormed_linked hmore entry_more
    ((FileTree.opensAnew_iff hmore).mpr (by decide)) (List.mem_singleton_self _)

/-- The files of components, less those of the library. -/
def withoutLibrary : CatalogRule :=
  ⟨["jsx"], [⟨[.char 'l', .char 'i', .char 'b', .char '/', .anyDirectories]⟩]⟩

/-- The files of components, less the scripts that begin with `_`. -/
def withoutHidden : CatalogRule :=
  ⟨["jsx"], [⟨[.anyDirectories, .char '_', .anyRun, .char '.', .char 'j', .char 's']⟩]⟩

/-- The file behind the link to the sources is listed, with both patterns. -/
theorem scan_lists_exactly_found_files_linked :
    (project linkedEntries).top.WellFormed ∧
      CatalogRule.ofTexts [".JSX"] ["lib/**"] = .ok withoutLibrary ∧
      CatalogRule.ofTexts [".JSX"] ["**/_*.js"] = .ok withoutHidden ∧ PlainCase ".JSX" ∧
      exists both, CatalogRule.ofTexts [".JSX"] ["**/_*.js", "lib/**"] = .ok both ∧
        ⟨"/app/more/Panel.JSX"⟩ ∈ (scan (project linkedEntries) both ⟨"/app"⟩).files := by
  have hlibrary : CatalogRule.ofTexts [".JSX"] ["lib/**"] = .ok withoutLibrary :=
    CatalogRule.ofTexts_eq (by decide +kernel) (by decide +kernel)
  have hhidden : CatalogRule.ofTexts [".JSX"] ["**/_*.js"] = .ok withoutHidden :=
    CatalogRule.ofTexts_eq (by decide +kernel) (by decide +kernel)
  have hplain : PlainCase ".JSX" := CatalogRule.plainCase_of_ascii (by simp)
  have hextension : HasOneOf ([".JSX"].map withoutDots) ⟨"/app/more/Panel.JSX"⟩ :=
    ⟨"JSX", by decide +kernel, "JSX", by decide +kernel, rfl⟩
  rcases scan_lists_exactly_found_files wellFormed_linked hlibrary ⟨"/app"⟩ with
    ⟨_, _, _, hfirst, htogether⟩
  rcases scan_lists_exactly_found_files wellFormed_linked hhidden ⟨"/app"⟩ with
    ⟨_, _, _, hsecond, _⟩
  rcases htogether ["**/_*.js"] withoutHidden ["**/_*.js", "lib/**"] hhidden
    (List.Perm.swap _ _ _) with ⟨both, hboth, hlisted⟩
  refine ⟨wellFormed_linked, hlibrary, hhidden, hplain, both, hboth, (hlisted _).mpr ⟨?_, ?_⟩⟩
  · exact (hfirst (by simpa using hplain) _).mpr
      ⟨hextension, finds_of_stands stands_panel (by decide +kernel)⟩
  · exact (hsecond (by simpa using hplain) _).mpr
      ⟨hextension, finds_of_stands stands_panel (by decide +kernel)⟩

/-- A project with one file, whose extension has a capital letter beyond ASCII. -/
def accentedEntries : List (String × Entry) :=
  [("a.ÉX", .file (.text ""))]

theorem wellFormed_accented : (project accentedEntries).top.WellFormed := by
  simp only [project, accentedEntries, Entry.wellFormed_directory_iff, Entry.wellFormed_file,
    List.forall_mem_cons, List.not_mem_nil, false_imp_iff, implies_true]
  decide

/-- The extension `ÉX` is asked for, and the file with this extension is not listed. -/
theorem accented_extension_is_not_listed :
    (project accentedEntries).top.WellFormed ∧
      CatalogRule.ofTexts ["ÉX"] [] = .ok ⟨["éx"], []⟩ ∧
      HasOneOf (["ÉX"].map withoutDots) ⟨"/app/a.ÉX"⟩ ∧
      Finds (project accentedEntries) ⟨["éx"], []⟩ ⟨"/app"⟩ ⟨"/app/a.ÉX"⟩ ∧
      ⟨"/app/a.ÉX"⟩ ∉ (scan (project accentedEntries) ⟨["éx"], []⟩ ⟨"/app"⟩).files := by
  have hstands := stands_project wellFormed_accented (List.mem_singleton_self _)
  refine ⟨wellFormed_accented, CatalogRule.ofTexts_eq (by decide +kernel) rfl,
    ⟨"ÉX", by decide +kernel, "ÉX", by decide +kernel, rfl⟩,
    finds_of_stands hstands (by decide +kernel), ?_⟩
  intro hlisted
  have hextension := (mem_scan_iff.mp hlisted).1
  revert hextension
  decide +kernel

end Catalog
end JsxUsage
