import JsxUsage.Analysis
import JsxUsage.Proofs.CachedFiles
import JsxUsage.Proofs.CatalogPaths
import JsxUsage.Proofs.ComponentDeclarations

/-!
# Names that several files define

A project can define a name in many files, and many times in one file.  Files are registered
in the order of their paths and the declarations of a file in the order of its text, so the
name belongs to the greatest file that defines it, and there to the last declaration.
-/

namespace JsxUsage

open Declaration (IsLast isComponentNamed)

/-!
# The files of a catalog in the cache

The cache knows a file by its absolute path.  All paths of a catalog begin with the same root,
so making them absolute keeps them apart.
-/

namespace Path

theorem eq_of_filter_here {ps qs : List Part} {first : Part} (hps : Part.here ∉ ps)
    (hqs : Part.here ∉ qs)
    (h : (first :: ps).filter (· != .here) = (first :: qs).filter (· != .here)) : ps = qs := by
  have hfilter : forall parts : List Part, Part.here ∉ parts ->
      parts.filter (· != .here) = parts := by
    intro parts hparts
    rw [List.filter_eq_self]
    intro part hpart
    rw [bne_iff_ne]
    intro heq
    subst heq
    exact hparts hpart
  cases hfirst : (first != .here) with
  | true =>
      simp only [List.filter_cons, hfirst, if_true, hfilter ps hps, hfilter qs hqs,
        List.cons.injEq, true_and] at h
      exact h
  | false =>
      simp only [List.filter_cons, hfirst, Bool.false_eq_true, if_false, hfilter ps hps,
        hfilter qs hqs] at h
      exact h

/-- Below one path, only the spelling of relative paths is lost when they are made absolute. -/
theorem beq_of_absolute_beq {t : FileTree} {root p q : Path} (hroot : root.parts ≠ [])
    (hp : root.parts <+: p.parts) (hq : root.parts <+: q.parts)
    (hkind : p.isAbsolute = q.isAbsolute) (h : (t.absolute p == t.absolute q) = true) :
    (p == q) = true := by
  cases habsolute : q.isAbsolute with
  | true =>
      rw [habsolute] at hkind
      rwa [FileTree.absolute, FileTree.absolute, if_pos hkind, if_pos habsolute] at h
  | false =>
      rw [habsolute] at hkind
      have hworking : (FileTree.pathOf t.working).text ≠ "" := by simp [FileTree.pathOf]
      rw [FileTree.absolute, FileTree.absolute, hkind, habsolute, if_neg Bool.false_ne_true,
        if_neg Bool.false_ne_true, beq_iff_parts, parts_join_relative hworking hkind,
        parts_join_relative hworking habsolute, List.append_cancel_left_eq] at h
      rcases List.exists_cons_of_ne_nil hroot with ⟨first, rest, hfirst⟩
      rcases hp with ⟨ps, hps⟩
      rcases hq with ⟨qs, hqs⟩
      rw [hfirst, List.cons_append] at hps hqs
      have hpTail := here_not_mem_tail p
      have hqTail := here_not_mem_tail q
      rw [← hps] at h hpTail
      rw [← hqs] at h hqTail
      rw [List.tail_cons] at hpTail hqTail
      rw [beq_iff_parts, ← hps, ← hqs, eq_of_filter_here hpTail hqTail h]

end Path

namespace Catalog

theorem eq_of_absolute_beq {t : FileTree} (htop : t.top.WellFormed) (rule : CatalogRule)
    {root p q : Path} (hp : p ∈ (scan t rule root).files) (hq : q ∈ (scan t rule root).files)
    (h : (t.absolute p == t.absolute q) = true) : p = q := by
  have hspreads := FileTree.spreads_walk htop (rule.excludes root) root
  have hpListed := (List.mem_filter.mp (List.mem_mergeSort.mp hp)).1
  have hqListed := (List.mem_filter.mp (List.mem_mergeSort.mp hq)).1
  have hroot : root.text ≠ "" := by
    intro hempty
    have hwalk : t.walk (rule.excludes root) root = [.error (.unusable root .notFound)] := by
      rw [FileTree.walk, FileTree.entry_of_text_eq t false hempty]
    rw [hwalk] at hpListed
    cases hpListed
  have hkind : p.isAbsolute = q.isAbsolute := by
    rw [hspreads.absolute p hpListed, hspreads.absolute q hqListed]
  have hsame := Path.beq_of_absolute_beq (Path.parts_ne_nil hroot) (hspreads.below p hpListed)
    (hspreads.below q hqListed) hkind h
  have hdistinct : Registry.DistinctPaths (scan t rule root).files :=
    (increasing_scan htop rule root).imp Path.ne_of_compare_lt
  exact Registry.eq_of_distinctPaths hdistinct hp hq hsame

end Catalog

namespace ParseCache

theorem outcome_toOption_eq_some_iff {strict : Bool} {t : FileTree} {path : Path}
    {source : SourceFile} :
    (outcome strict t path).toOption = some source <-> load strict t path = .ok source := by
  unfold outcome
  cases load strict t path with
  | error failure => simp [Except.mapError, Except.toOption]
  | ok file => simp [Except.mapError, Except.toOption]

/-- A file that was asked for is answered with what reading it gives. -/
theorem source_of_answers {t : FileTree} {strict : Bool} {paths : List Path} {c : ParseCache}
    (h : Answers t strict paths c)
    (hapart : forall p q, p ∈ paths -> q ∈ paths -> (t.absolute p == t.absolute q) = true -> p = q)
    {path : Path} (hpath : path ∈ paths) :
    (c.get t path).2 = (outcome strict t (t.absolute path)).toOption := by
  have hheld := h.held path hpath
  rcases Option.isSome_iff_exists.mp hheld with ⟨slot, hslot⟩
  rcases Index.mem_of_find hslot with ⟨key, hmem, hsame⟩
  rcases h.asked key slot hmem with ⟨p, hp, rfl⟩
  have hown := hapart p path hp hpath hsame
  subst hown
  have hfull := h.settled _ slot hmem
  rw [h.mode] at hfull
  show ((c.openSlot (t.absolute p)).fillSlot t (t.absolute p)).source? (t.absolute p) = _
  rw [openSlot_of_contains hheld]
  rw [hfull] at hslot
  have hget : c.slots.get? (t.absolute p) = some (some (outcome strict t (t.absolute p)).toOption) :=
    hslot
  rw [fillSlot_of_full hget, source?, hget]

end ParseCache

/-!
# The owner of a name
-/

namespace Registry

variable (sources : Path -> Option SourceFile)

/-- The last definition of a name in a file. -/
def ownerIn (name : String) (file : Path) : Option Definition :=
  (definitionsAt sources file).reverse.find? fun d => d.name == name

theorem ownerIn_eq (name : String) (file : Path) :
    ownerIn sources name file = (sources file).bind fun source =>
      (source.declarations.reverse.find? (isComponentNamed name)).map
        (Definition.ofDeclaration file) := by
  unfold ownerIn definitionsAt
  cases sources file with
  | none => rfl
  | some source => exact find?_definitionsIn (fun e => rfl) source

theorem ownerIn_eq_some_iff {name : String} {file : Path} {d : Definition} :
    ownerIn sources name file = some d <->
      exists source position own, sources file = some source ∧
        IsLast (isComponentNamed name) source.declarations position own ∧
        d = Definition.ofDeclaration file own := by
  rw [ownerIn_eq, Option.bind_eq_some_iff]
  simp only [Option.map_eq_some_iff]
  constructor
  · intro h
    rcases h with ⟨source, hsource, own, hown, rfl⟩
    rcases Declaration.isLast_of_find? hown with ⟨position, hlast⟩
    exact ⟨source, position, own, hsource, hlast, rfl⟩
  · intro h
    rcases h with ⟨source, position, own, hsource, hlast, rfl⟩
    exact ⟨source, hsource, own, Declaration.find?_of_isLast hlast, rfl⟩

theorem ownerIn_ne_none_iff {name : String} {file : Path} :
    ownerIn sources name file ≠ none <->
      exists source d, sources file = some source ∧ d ∈ source.declarations ∧
        isComponentNamed name d = true := by
  rw [ownerIn_eq, Option.ne_none_iff_isSome, Option.isSome_bind]
  cases sources file with
  | none => simp
  | some source => simp

/-- The files are asked from the last one on. -/
theorem lookup_discover (files : List Path) (name : String) :
    (discover sources files).lookup name = files.reverse.findSome? (ownerIn sources name) := by
  rw [discover_eq, lookup_ofDefinitions, List.reverse_flatMap, List.find?_flatMap]
  rfl

theorem lookup_discover_eq_none_iff (files : List Path) (name : String) :
    (discover sources files).lookup name = none <->
      forall file, file ∈ files -> ownerIn sources name file = none := by
  rw [lookup_discover, List.findSome?_eq_none_iff]
  simp only [List.mem_reverse]

variable {files : List Path} (hincreasing : files.Pairwise fun p q => p.compare q = .lt)
include hincreasing

theorem greatest_of_lookup {name : String} {d : Definition}
    (h : (discover sources files).lookup name = some d) :
    exists file, file ∈ files ∧ ownerIn sources name file = some d ∧
      forall other, other ∈ files -> ownerIn sources name other ≠ none ->
        other = file ∨ other.compare file = .lt := by
  rw [lookup_discover] at h
  rcases List.findSome?_eq_some_iff.mp h with ⟨later, file, earlier, hsplit, hown, hlater⟩
  have hfiles : files = earlier.reverse ++ file :: later.reverse := by
    rw [← List.reverse_reverse files, hsplit]
    simp
  refine ⟨file, by simp [hfiles], hown, ?_⟩
  intro other hother howner
  rw [hfiles, List.mem_append, List.mem_cons] at hother
  rcases hother with hbefore | rfl | hafter
  · right
    rw [hfiles, List.pairwise_append] at hincreasing
    exact hincreasing.right.right other hbefore file List.mem_cons_self
  · exact Or.inl rfl
  · exact absurd (hlater other (List.mem_reverse.mp hafter)) howner

/-- The name belongs to the file that no other file with the name follows. -/
theorem lookup_discover_eq_some_iff {name : String} {d : Definition} :
    (discover sources files).lookup name = some d <->
      exists file, file ∈ files ∧ ownerIn sources name file = some d ∧
        forall other, other ∈ files -> ownerIn sources name other ≠ none ->
          other = file ∨ other.compare file = .lt := by
  constructor
  · exact greatest_of_lookup sources hincreasing
  · intro h
    rcases h with ⟨file, hfile, hown, hgreatest⟩
    have hne : ownerIn sources name file ≠ none := by
      rw [hown]
      exact Option.some_ne_none d
    cases hlookup : (discover sources files).lookup name with
    | none =>
        exact absurd ((lookup_discover_eq_none_iff sources files name).mp hlookup file hfile) hne
    | some e =>
        rcases greatest_of_lookup sources hincreasing hlookup with ⟨other, hother, howner, hbound⟩
        have hne' : ownerIn sources name other ≠ none := by
          rw [howner]
          exact Option.some_ne_none e
        have hsame : other = file := by
          rcases hgreatest other hother hne' with rfl | hbefore
          · rfl
          · rcases hbound file hfile hne with rfl | hafter
            · rfl
            · exact absurd hafter (Path.not_lt_of_lt hbefore)
        subst hsame
        rw [hown] at howner
        rw [howner]

end Registry

namespace Analysis

/-- The sources that an analysis works with: the files are read once, and then kept. -/
def cachedSources (t : FileTree) (strict : Bool) (files : List Path) (path : Path) :
    Option SourceFile :=
  (((ParseCache.new strict).getAll t files).get t path).2

theorem registry_ofCatalog (t : FileTree) (s : AnalysisSettings) (root : Path) (catalog : Catalog) :
    (ofCatalog t s root catalog).registry =
      Registry.discover (cachedSources t s.strictParse catalog.files) catalog.files :=
  rfl

/-- The file can be read, and a component of the name is declared in it. -/
def Declares (t : FileTree) (strict : Bool) (name : String) (file : Path) : Prop :=
  exists source d, ParseCache.load strict t (t.absolute file) = .ok source ∧
    d ∈ source.declarations ∧ isComponentNamed name d = true

section

variable {t : FileTree} (htree : t.top.WellFormed) (strict : Bool) (rule : CatalogRule)
  {root file : Path} (hfile : file ∈ (Catalog.scan t rule root).files)
include htree hfile

theorem cachedSources_eq_some_iff {source : SourceFile} :
    cachedSources t strict (Catalog.scan t rule root).files file = some source <->
      ParseCache.load strict t (t.absolute file) = .ok source := by
  have hanswers := ParseCache.answers_getAll (ParseCache.answers_new t strict)
    (Catalog.scan t rule root).files
  have hapart : forall p q, p ∈ [] ++ (Catalog.scan t rule root).files ->
      q ∈ [] ++ (Catalog.scan t rule root).files ->
      (t.absolute p == t.absolute q) = true -> p = q := by
    intro p q hp hq
    exact Catalog.eq_of_absolute_beq htree rule hp hq
  rw [cachedSources, ParseCache.source_of_answers hanswers hapart hfile,
    ParseCache.outcome_toOption_eq_some_iff]

theorem ownerIn_ne_none_iff_declares (name : String) :
    Registry.ownerIn (cachedSources t strict (Catalog.scan t rule root).files) name file ≠ none <->
      Declares t strict name file := by
  rw [Registry.ownerIn_ne_none_iff, Declares]
  simp only [cachedSources_eq_some_iff htree strict rule hfile]

end

theorem exists_definition {t : FileTree} (htree : t.top.WellFormed) (s : AnalysisSettings)
    {rule : CatalogRule} {root file : Path} {name : String}
    (hfile : file ∈ (Catalog.scan t rule root).files) (h : Declares t s.strictParse name file) :
    exists d, d ∈ (ofCatalog t s root (Catalog.scan t rule root)).registry.definitions ∧
      d.name = name := by
  have howner := (ownerIn_ne_none_iff_declares htree s.strictParse rule hfile name).mpr h
  rw [registry_ofCatalog]
  cases hlookup : (Registry.discover (cachedSources t s.strictParse
      (Catalog.scan t rule root).files) (Catalog.scan t rule root).files).lookup name with
  | none => exact absurd ((Registry.lookup_discover_eq_none_iff _ _ _).mp hlookup file hfile) howner
  | some d =>
      rw [Registry.discover_eq] at hlookup ⊢
      exact ⟨d, Registry.mem_of_lookup hlookup⟩

theorem name_belongs_to_greatest_file {t : FileTree} (htree : t.top.WellFormed)
    (s : AnalysisSettings) (rule : CatalogRule) (root : Path) (name : String) :
    ((ofCatalog t s root (Catalog.scan t rule root)).registry.lookup name = none <->
      forall file, file ∈ (Catalog.scan t rule root).files ->
        ¬ Declares t s.strictParse name file) ∧
    forall d, (ofCatalog t s root (Catalog.scan t rule root)).registry.lookup name = some d <->
      exists file source position own, file ∈ (Catalog.scan t rule root).files ∧
        (forall other, other ∈ (Catalog.scan t rule root).files ->
          Declares t s.strictParse name other -> other = file ∨ other.compare file = .lt) ∧
        ParseCache.load s.strictParse t (t.absolute file) = .ok source ∧
        IsLast (isComponentNamed name) source.declarations position own ∧
        d = Definition.ofDeclaration file own := by
  have hincreasing := Catalog.increasing_scan htree rule root
  rw [registry_ofCatalog]
  constructor
  · rw [Registry.lookup_discover_eq_none_iff]
    refine forall₂_congr fun file hfile => ?_
    rw [← ownerIn_ne_none_iff_declares htree s.strictParse rule hfile, not_not]
  · intro d
    rw [Registry.lookup_discover_eq_some_iff _ hincreasing]
    simp only [Registry.ownerIn_eq_some_iff]
    constructor
    · intro h
      rcases h with ⟨file, hfile, ⟨source, position, own, hsource, hown, hd⟩, hgreatest⟩
      rw [cachedSources_eq_some_iff htree s.strictParse rule hfile] at hsource
      refine ⟨file, source, position, own, hfile, ?_, hsource, hown, hd⟩
      intro other hother hdeclares
      exact hgreatest other hother
        ((ownerIn_ne_none_iff_declares htree s.strictParse rule hother name).mpr hdeclares)
    · intro h
      rcases h with ⟨file, source, position, own, hfile, hgreatest, hsource, hown, hd⟩
      rw [← cachedSources_eq_some_iff htree s.strictParse rule hfile] at hsource
      refine ⟨file, hfile, ⟨source, position, own, hsource, hown, hd⟩, ?_⟩
      intro other hother howner
      exact hgreatest other hother
        ((ownerIn_ne_none_iff_declares htree s.strictParse rule hother name).mp howner)

/-- A file that declares a name twice. -/
def buttonText : String :=
  "function Button() \x7b return <p/>; \x7d\nvar Button = () => <b/>;\n"

/-- The name stands in `a/b.jsx` and in `a-b.jsx`, which are in another order as texts than as
paths. -/
def buttons : FileTree :=
  ⟨.directory [("app", .directory [
    ("a", .directory [("b.jsx", .file (.text "var Button = () => <i/>;\n"))]),
    ("a-b.jsx", .file (.text buttonText))])], []⟩

def jsxRule : CatalogRule := ⟨["jsx"], []⟩

theorem wellFormed_buttons : buttons.top.WellFormed := by
  simp only [buttons, Entry.wellFormed_directory_iff, Entry.wellFormed_file,
    List.forall_mem_cons, List.not_mem_nil, false_imp_iff, implies_true]
  decide

theorem resolve_app : buttons.resolve false ⟨"/app"⟩ = .ok ["app"] :=
  FileTree.resolve_of_pieces (by decide) (by decide) rfl (by nofun) false

theorem scan_buttons : (Catalog.scan buttons jsxRule ⟨"/app"⟩).files =
    [⟨"/app/a/b.jsx"⟩, ⟨"/app/a-b.jsx"⟩] := by
  have hskip : forall path, jsxRule.excludes ⟨"/app"⟩ path = false := by
    intro path
    simp [CatalogRule.excludes, jsxRule]
  have hwalk : buttons.walk (jsxRule.excludes ⟨"/app"⟩) ⟨"/app"⟩ =
      [.ok ⟨"/app/a/b.jsx"⟩, .ok ⟨"/app/a-b.jsx"⟩] := by
    rw [FileTree.walk, FileTree.entry, resolve_app]
    simp [buttons, Entry.at?, Entry.named?, FileTree.walkEntry_directory, FileTree.walkEntry_file,
      hskip, Entry.listing_of_pairwise, Path.join, Path.isAbsolute]
  have hlisted : (Catalog.listed [.ok ⟨"/app/a/b.jsx"⟩, .ok ⟨"/app/a-b.jsx"⟩]).filter
      jsxRule.hasExtension = [⟨"/app/a/b.jsx"⟩, ⟨"/app/a-b.jsx"⟩] := rfl
  rw [Catalog.scan, hwalk, hlisted]
  exact List.mergeSort_of_pairwise (by decide +kernel)

theorem load_button : ParseCache.load true buttons ⟨"/app/a-b.jsx"⟩ =
    .ok (SourceFile.ofText ⟨"/app/a-b.jsx"⟩ .jsx buttonText) := by
  have hpieces : (Path.pieces "/app/a-b.jsx".toList).map String.ofList =
      ["", "app", "a-b.jsx"] := by decide
  have hplace : buttons.resolve true ⟨"/app/a-b.jsx"⟩ = .ok ["app", "a-b.jsx"] := by
    rw [FileTree.resolve, if_neg (by decide), hpieces]
    simp [FileTree.locate, buttons, Entry.at?, Entry.named?, Entry.isDirectory, Path.isAbsolute]
  have hread : buttons.readText ⟨"/app/a-b.jsx"⟩ = .ok buttonText := by
    rw [FileTree.readText, FileTree.entry, hplace]
    rfl
  have hdialect : SourceFile.dialectOf? ⟨"/app/a-b.jsx"⟩ = some .jsx := by decide +kernel
  have herror : (SourceFile.ofText ⟨"/app/a-b.jsx"⟩ .jsx buttonText).hasSyntaxError = false := by
    decide +kernel
  simp [ParseCache.load, hread, hdialect, herror]

theorem name_belongs_to_greatest_file_buttons :
    buttons.top.WellFormed ∧ exists d,
      (ofCatalog buttons AnalysisSettings.initial ⟨"/app"⟩
        (Catalog.scan buttons jsxRule ⟨"/app"⟩)).registry.lookup "Button" = some d ∧
      d.file.text = "/app/a-b.jsx" ∧ d.kind = .arrowFunction ∧ d.line = 2 := by
  have hdeclarations : (SourceFile.ofText ⟨"/app/a-b.jsx"⟩ .jsx buttonText).declarations =
      [⟨"Button", .function, 1, true, ["p"]⟩, ⟨"Button", .arrowFunction, 2, true, ["b"]⟩] := by
    decide +kernel
  have hlast : IsLast (isComponentNamed "Button")
      (SourceFile.ofText ⟨"/app/a-b.jsx"⟩ .jsx buttonText).declarations 1
      ⟨"Button", .arrowFunction, 2, true, ["b"]⟩ := by
    rw [hdeclarations]
    refine ⟨rfl, by decide, ?_⟩
    intro i e hi he
    rw [List.getElem?_eq_none hi] at he
    cases he
  refine ⟨wellFormed_buttons, Definition.ofDeclaration ⟨"/app/a-b.jsx"⟩
    ⟨"Button", .arrowFunction, 2, true, ["b"]⟩, ?_, rfl, rfl, rfl⟩
  rw [(name_belongs_to_greatest_file wellFormed_buttons AnalysisSettings.initial jsxRule ⟨"/app"⟩
    "Button").right]
  refine ⟨⟨"/app/a-b.jsx"⟩, _, 1, _, by simp [scan_buttons], ?_, load_button, hlast, rfl⟩
  intro other hother _
  rw [scan_buttons, List.mem_cons, List.mem_singleton] at hother
  rcases hother with rfl | rfl
  · exact Or.inr (by decide +kernel)
  · exact Or.inl rfl

end Analysis
end JsxUsage
