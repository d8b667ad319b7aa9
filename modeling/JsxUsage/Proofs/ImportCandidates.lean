import JsxUsage.Proofs.CatalogExclusion
import JsxUsage.Proofs.CatalogPaths
import JsxUsage.Proofs.FileIsolation
import JsxUsage.Proofs.ImportTargets

/-!
# Which files an import finds

An import may leave out the extension of the file that it means.  The catalog and the
resolver are given the same list of extensions, but the catalog compares them without
regard to case, while the resolver puts them behind the path as they are written.  This
module proves what follows for a file that no other file stands in the way of: an import
that leads to it finds it if and only if the list has its extension letter by letter, or
the file owns the name in any case.
-/

namespace JsxUsage

/-!
# Paths from their parts
-/

namespace Path

theorem part_of_partOf {first : Bool} {piece : List Char} {part : Part} (hslash : '/' ∉ piece)
    (h : partOf first piece = some part) :
    part = .here ∨ part = .up ∨ exists name, part = .name name ∧ IsName name := by
  unfold partOf at h
  split_ifs at h with hempty hdot hfirst hup
  · exact Or.inl (Option.some.inj h).symm
  · exact Or.inr (Or.inl (Option.some.inj h).symm)
  · refine Or.inr (Or.inr ⟨_, (Option.some.inj h).symm, ?_⟩)
    refine ⟨ofList_ne ?_, ofList_ne ?_, ofList_ne ?_, ?_⟩
    · simpa using hempty
    · simpa using hdot
    · simpa using hup
    · rwa [String.toList_ofList]

theorem part_of_mem_partsOf {first : Bool} {ps : List (List Char)}
    (hps : forall piece, piece ∈ ps -> '/' ∉ piece) {part : Part} (h : part ∈ partsOf first ps) :
    part = .here ∨ part = .up ∨ exists name, part = .name name ∧ IsName name := by
  cases ps with
  | nil => cases h
  | cons piece others =>
      rw [partsOf, List.mem_append, Option.mem_toList, List.mem_filterMap] at h
      rcases h with hfirst | ⟨other, hother, hpart⟩
      · exact part_of_partOf (hps piece List.mem_cons_self) hfirst
      · exact part_of_partOf (hps other (List.mem_cons_of_mem _ hother)) hpart

theorem isName_of_mem_parts {p : Path} {name : String} (h : .name name ∈ p.parts) :
    IsName name := by
  rw [parts_eq, List.mem_append] at h
  rcases h with hroot | hpart
  · cases p.isAbsolute <;> simp at hroot
  · rcases part_of_mem_partsOf (fun _ => slash_not_mem_piece) hpart with
      hpart | hpart | ⟨_, hpart, hname⟩
    · cases hpart
    · cases hpart
    · cases hpart
      exact hname

theorem root_not_mem_tail (p : Path) : Part.root ∉ p.parts.tail := by
  have hpieces : forall first, Part.root ∉ partsOf first (pieces p.text.toList) := by
    intro first hroot
    rcases part_of_mem_partsOf (fun _ => slash_not_mem_piece) hroot with
      hroot | hroot | ⟨_, hroot, _⟩
    · cases hroot
    · cases hroot
    · cases hroot
  rw [parts_eq]
  cases p.isAbsolute with
  | true => exact hpieces _
  | false => exact fun hroot => hpieces _ (List.mem_of_mem_tail hroot)

theorem ofParts_concat (ps : List Part) (part : Part) :
    ofParts (ps ++ [part]) = (ofParts ps).join ⟨partText part⟩ := by
  rw [ofParts, List.foldl_append]
  rfl

/-- The root and a dot can only stand first, so every other part is put behind as it is. -/
theorem parts_ofParts_of_proper {ps : List Part}
    (hnames : forall name, .name name ∈ ps -> IsName name) (hroot : Part.root ∉ ps.tail)
    (hhere : Part.here ∉ ps.tail) : (ofParts ps).parts = ps := by
  induction ps using List.reverseRecOn with
  | nil => rfl
  | append_singleton ps part ih =>
      have hfirst : part ∉ (ps ++ [part]).tail -> ps = [] := by
        cases ps <;> simp
      have htail : forall other, other ∈ ps.tail -> other ∈ (ps ++ [part]).tail := by
        cases ps <;> simp +contextual
      have hparts : (ofParts ps).parts = ps :=
        ih (fun name hname => hnames name (List.mem_append_left _ hname))
          (mt (htail _) hroot) (mt (htail _) hhere)
      rw [ofParts_concat]
      cases part with
      | root =>
          rw [hfirst hroot]
          rfl
      | here =>
          rw [hfirst hhere]
          rfl
      | up =>
          by_cases hps : ps = []
          · rw [hps]
            rfl
          · rw [parts_join_relative (by rwa [Ne, ← parts_eq_nil_iff, hparts]) rfl, hparts]
            rfl
      | name text =>
          have htext := hnames text (List.mem_append_right _ (List.mem_singleton_self _))
          rw [partText, parts_join _ htext, hparts]

theorem parts_ofParts (p : Path) : (ofParts p.parts).parts = p.parts :=
  parts_ofParts_of_proper (fun _ => isName_of_mem_parts) (root_not_mem_tail p) (here_not_mem_tail p)

theorem parts_join_congr {p q : Path} (h : p.parts = q.parts) (x : Path) :
    (p.join x).parts = (q.join x).parts := by
  have htext : p.text = "" <-> q.text = "" := by
    rw [← parts_eq_nil_iff, h, parts_eq_nil_iff]
  cases habsolute : x.isAbsolute with
  | true => simp [join, habsolute]
  | false =>
      by_cases hp : p.text = ""
      · rw [join_of_text_eq hp, join_of_text_eq (htext.mp hp)]
      · rw [parts_join_relative hp habsolute, parts_join_relative (mt htext.mpr hp) habsolute, h]

theorem parent?_of_parts {p : Path} {ps : List Part} {name : String}
    (h : p.parts = ps ++ [.name name]) : p.parent? = some (ofParts ps) := by
  simp [parent?, h]

theorem fileName?_of_parts {p : Path} {ps : List Part} {name : String}
    (h : p.parts = ps ++ [.name name]) : p.fileName? = some name := by
  simp [fileName?, h]

theorem parts_withFileName {base directory : Path} {stem : String}
    (hbase : base.parts = directory.parts ++ [.name stem]) (name : String) :
    (base.withFileName name).parts = (directory.join ⟨name⟩).parts := by
  rw [withFileName, fileName?_of_parts hbase, parent?_of_parts hbase]
  exact parts_join_congr (parts_ofParts directory) ⟨name⟩

end Path

namespace Resolver

open Registry (discover definitionsAt DistinctPaths)
open CatalogRule (withoutDots sameUpToCase)

/-!
# Candidates
-/

/-- A component is found at a path if and only if the file with this path defines it. -/
theorem definedAt_eq_some_iff (sources : Path -> Option SourceFile) {files : List Path}
    (hdistinct : DistinctPaths files) (extensions : List String) (scope : UsageScope) {name : String}
    {path : Path} {id : ComponentId} :
    (ofSources sources files extensions scope).definedAt name path = some id <->
      id.file ∈ files ∧ (id.file == path) = true ∧
        exists d, d ∈ definitionsAt sources id.file ∧ d.id = id ∧ d.name = name := by
  rw [definedAt_ofSources, Option.map_eq_some_iff]
  constructor
  · intro h
    rcases h with ⟨d, hget, rfl⟩
    rcases Registry.mem_of_get? hget with ⟨hd, hsame⟩
    rcases Registry.mem_discover hd with ⟨hfile, hdefined⟩
    have hkey := ComponentId.beq_iff_key.mp hsame
    exact ⟨hfile, ComponentId.file_beq_of_beq hsame, d, hdefined, rfl, congrArg Prod.snd hkey⟩
  · intro h
    rcases h with ⟨hfile, hpath, d, hd, rfl, rfl⟩
    have hsame : (d.id == ⟨path, d.name⟩) = true :=
      ComponentId.beq_iff_key.mpr (Prod.ext (Path.beq_iff_parts.mp hpath) rfl)
    have hsome : ((discover sources files).get? ⟨path, d.name⟩).isSome = true := by
      rw [Registry.discover_eq, Registry.get?_ofDefinitions, List.find?_isSome]
      exact ⟨d, List.mem_reverse.mpr (List.mem_flatMap.mpr ⟨_, hfile, hd⟩), hsame⟩
    rcases Option.isSome_iff_exists.mp hsome with ⟨e, he⟩
    refine ⟨e, he, ?_⟩
    -- The last definition of the component may be another one, but its file and name are the same.
    rcases Registry.mem_of_get? he with ⟨hmem, heSame⟩
    have hfiles : e.file = d.file := Registry.eq_of_distinctPaths hdistinct
      (Registry.mem_discover hmem).left hfile
      (BEq.trans (ComponentId.file_beq_of_beq heSame) (BEq.symm hpath))
    have hnames : e.name = d.name := congrArg Prod.snd (ComponentId.beq_iff_key.mp heSame)
    show (⟨e.file, e.name⟩ : ComponentId) = ⟨d.file, d.name⟩
    rw [hfiles, hnames]

theorem mem_candidates_iff {r : Resolver} {base path : Path} :
    path ∈ r.candidates base <-> path = base ∨
      (exists e, e ∈ r.extensions ∧
        path = base.withFileName (base.fileName?.getD "" ++ "." ++ e)) ∨
      exists e, e ∈ r.extensions ∧ path = base.join ⟨"index." ++ e⟩ := by
  simp only [candidates, List.cons_append, List.mem_cons, List.mem_append, List.mem_map, eq_comm]

/-- The files that a module at the place of `stem` in a directory may mean. -/
inductive Means (extensions : List String) (directory : Path) (stem : String) (path : Path) :
    Prop where
  | bare (h : (path == directory.join ⟨stem⟩) = true)
  | extended {e : String} (he : e ∈ extensions)
      (h : (path == directory.join ⟨stem ++ "." ++ e⟩) = true)
  | index {e : String} (he : e ∈ extensions)
      (h : (path == (directory.join ⟨stem⟩).join ⟨"index." ++ e⟩) = true)

theorem means_iff {extensions : List String} {directory path : Path} {stem : String} :
    Means extensions directory stem path <-> (path == directory.join ⟨stem⟩) = true ∨
      (exists e, e ∈ extensions ∧ (path == directory.join ⟨stem ++ "." ++ e⟩) = true) ∨
      exists e, e ∈ extensions ∧ (path == (directory.join ⟨stem⟩).join ⟨"index." ++ e⟩) = true := by
  constructor
  · intro h
    cases h with
    | bare h => exact Or.inl h
    | extended he h => exact Or.inr (Or.inl ⟨_, he, h⟩)
    | index he h => exact Or.inr (Or.inr ⟨_, he, h⟩)
  · intro h
    rcases h with h | ⟨e, he, h⟩ | ⟨e, he, h⟩
    · exact .bare h
    · exact .extended he h
    · exact .index he h

instance (extensions : List String) (directory : Path) (stem : String) (path : Path) :
    Decidable (Means extensions directory stem path) :=
  decidable_of_iff _ means_iff.symm

theorem exists_candidate_iff_means (r : Resolver) {base directory : Path} {stem : String}
    (hparts : base.parts = directory.parts ++ [.name stem]) (path : Path) :
    (exists c, c ∈ r.candidates base ∧ (path == c) = true) <->
      Means r.extensions directory stem path := by
  have hbase : (base == directory.join ⟨stem⟩) = true := by
    have hstem : .name stem ∈ base.parts := by simp [hparts]
    rw [Path.beq_iff_parts, hparts, Path.parts_join directory (Path.isName_of_mem_parts hstem)]
  have hname : base.fileName?.getD "" = stem := by
    rw [Path.fileName?_of_parts hparts]
    rfl
  have hextended : forall e, (base.withFileName (stem ++ "." ++ e) ==
      directory.join ⟨stem ++ "." ++ e⟩) = true :=
    fun e => Path.beq_iff_parts.mpr (Path.parts_withFileName hparts _)
  have hindex : forall e, (base.join ⟨"index." ++ e⟩ ==
      (directory.join ⟨stem⟩).join ⟨"index." ++ e⟩) = true :=
    fun e => Path.beq_iff_parts.mpr (Path.parts_join_congr (Path.beq_iff_parts.mp hbase) _)
  constructor
  · intro h
    rcases h with ⟨c, hc, hsame⟩
    rw [mem_candidates_iff, hname] at hc
    rcases hc with rfl | ⟨e, he, rfl⟩ | ⟨e, he, rfl⟩
    · exact .bare (BEq.trans hsame hbase)
    · exact .extended he (BEq.trans hsame (hextended e))
    · exact .index he (BEq.trans hsame (hindex e))
  · intro hmeans
    cases hmeans with
    | bare h => exact ⟨base, mem_candidates_iff.mpr (Or.inl rfl), BEq.trans h (BEq.symm hbase)⟩
    | extended he h =>
        refine ⟨_, mem_candidates_iff.mpr (Or.inr (Or.inl ⟨_, he, rfl⟩)), ?_⟩
        rw [hname]
        exact BEq.trans h (BEq.symm (hextended _))
    | index he h =>
        exact ⟨_, mem_candidates_iff.mpr (Or.inr (Or.inr ⟨_, he, rfl⟩)),
          BEq.trans h (BEq.symm (hindex _))⟩

/-- Among these files, one beside `stem` is there for its extension. -/
theorem extended_of_means {extensions : List String} {directory file : Path} {stem ext : String}
    (hstem : Path.IsName stem)
    (hparts : file.parts = directory.parts ++ [.name (stem ++ "." ++ ext)])
    (h : Means extensions directory stem file) :
    exists e, e ∈ extensions ∧ (file == directory.join ⟨stem ++ "." ++ e⟩) = true := by
  have hbase := Path.parts_join directory hstem
  have hlonger : stem ++ "." ++ ext ≠ stem := by
    intro heq
    have hdot : ".".length = 1 := rfl
    have hlength := congrArg String.length heq
    rw [String.length_append, String.length_append] at hlength
    omega
  have haway : forall rest, file.parts ≠ directory.parts ++ [.name stem] ++ rest := by
    intro rest heq
    rw [hparts, List.append_assoc, List.append_cancel_left_eq, List.singleton_append,
      List.cons.injEq, Part.name.injEq] at heq
    exact hlonger heq.left
  cases h with
  | bare h =>
      rw [Path.beq_iff_parts, hbase] at h
      exact absurd (h.trans (List.append_nil _).symm) (haway [])
  | extended he h => exact ⟨_, he, h⟩
  | index he h =>
      have hbelow : (directory.join ⟨stem⟩).text ≠ "" := by
        simp [← Path.parts_eq_nil_iff, hbase]
      rw [Path.beq_iff_parts, Path.parts_join_relative hbelow (by simp [Path.isAbsolute]), hbase] at h
      exact absurd h (haway _)

/-!
# Imports without an extension
-/

section Import

variable (sources : Path -> Option SourceFile) {files : List Path} (hdistinct : DistinctPaths files)
  {extensions : List String} (scope : UsageScope) {importer : Path} {b : ImportBinding}
  (hrelative : b.isRelative = true) (hnamed : b.imported ≠ .whole) {directory : Path} {stem : String}
  (htarget : (target importer b.source).parts = directory.parts ++ [.name stem])
include hdistinct hrelative hnamed htarget

theorem imported_isSome {file : Path} (hfile : file ∈ files)
    (hmeans : Means extensions directory stem file) {d : Definition}
    (hd : d ∈ definitionsAt sources file) (hname : d.name = b.lookupName) :
    ((ofSources sources files extensions scope).imported importer b).isSome = true := by
  have hopen : (b.isRelative && b.imported != .whole) = true := by
    simp [hrelative, hnamed]
  have hcandidates :=
    exists_candidate_iff_means (ofSources sources files extensions scope) htarget file
  rcases hcandidates.mpr hmeans with ⟨c, hc, hpath⟩
  have hdefined := Registry.file_of_mem_definitionsAt hd
  rw [← hdefined] at hfile hpath hd
  rw [imported, if_pos hopen, List.findSome?_isSome_iff]
  refine ⟨c, hc, ?_⟩
  rw [(definedAt_eq_some_iff sources hdistinct extensions scope).mpr
    ⟨hfile, hpath, d, hd, rfl, hname⟩]
  rfl

theorem means_of_imported {id : ComponentId}
    (h : (ofSources sources files extensions scope).imported importer b = some id) :
    id.file ∈ files ∧ Means extensions directory stem id.file ∧ id.name = b.lookupName := by
  have hopen : (b.isRelative && b.imported != .whole) = true := by
    simp [hrelative, hnamed]
  rw [imported, if_pos hopen] at h
  rcases List.exists_of_findSome?_eq_some h with ⟨c, hc, hid⟩
  rcases (definedAt_eq_some_iff sources hdistinct extensions scope).mp hid with
    ⟨hfile, hpath, d, _, rfl, hname⟩
  exact ⟨hfile, (exists_candidate_iff_means _ htarget _).mp ⟨c, hc, hpath⟩, hname⟩

end Import

theorem exists_extension_of_mem_scan {t : FileTree} {extensions patterns : List String}
    {rule : CatalogRule} (hrule : CatalogRule.ofTexts extensions patterns = .ok rule)
    {root file : Path} (hfile : file ∈ (Catalog.scan t rule root).files) {ext : String}
    (hext : file.extension? = some ext) :
    exists e, e ∈ extensions ∧ sameUpToCase (Text.lower (withoutDots e)) ext = true := by
  have hknown := (Catalog.mem_scan_iff.mp hfile).left
  unfold CatalogRule.ofTexts at hrule
  cases hglobs : CatalogRule.readGlobs patterns with
  | error fault =>
      rw [hglobs] at hrule
      cases hrule
  | ok globs =>
      rw [hglobs] at hrule
      cases hrule
      simpa [CatalogRule.hasExtension, hext] using hknown

section Scan

variable {t : FileTree} (htree : t.top.WellFormed) {extensions patterns : List String}
  {rule : CatalogRule} (hrule : CatalogRule.ofTexts extensions patterns = .ok rule) (root : Path)
  (sources : Path -> Option SourceFile) (scope : UsageScope)
include htree hrule

/-- A file that the catalog lists for one of the extensions, in whatever case, is found by
an import that leads to it without its extension if one of the extensions, as it is written,
completes its path; else the import means the owner of the name. -/
theorem import_finds_file_by_written_extension {file directory : Path} {stem ext : String}
    (hfile : file ∈ (Catalog.scan t rule root).files)
    (hparts : file.parts = directory.parts ++ [.name (stem ++ "." ++ ext)])
    (hext : file.extension? = some ext)
    (hsole : forall other, other ∈ (Catalog.scan t rule root).files ->
      Means (extensions.map withoutDots) directory stem other -> other = file)
    {d : Definition} (hd : d ∈ definitionsAt sources file) {importer : Path} {b : ImportBinding}
    (hrelative : b.isRelative = true) (hnamed : b.imported ≠ .whole) (hname : b.lookupName = d.name)
    (htarget : (target importer b.source).parts = directory.parts ++ [.name stem]) :
    (exists e, e ∈ extensions ∧ sameUpToCase (Text.lower (withoutDots e)) ext = true) ∧
      ((exists e, e ∈ extensions ∧
          (file == directory.join ⟨stem ++ "." ++ withoutDots e⟩) = true) ->
        (ofSources sources (Catalog.scan t rule root).files (extensions.map withoutDots)
          scope).resolveBinding importer b = some ⟨file, d.name⟩) ∧
      ((forall e, e ∈ extensions ->
          (file == directory.join ⟨stem ++ "." ++ withoutDots e⟩) = false) ->
        (ofSources sources (Catalog.scan t rule root).files (extensions.map withoutDots)
            scope).resolveBinding importer b =
          ((discover sources (Catalog.scan t rule root).files).lookup d.name).map Definition.id) := by
  have hdistinct : DistinctPaths (Catalog.scan t rule root).files :=
    (Catalog.increasing_scan htree rule root).imp Path.ne_of_compare_lt
  have hmem : .name stem ∈ (target importer b.source).parts := by
    simp [htarget]
  have hstem := Path.isName_of_mem_parts hmem
  have hunique : forall id, (ofSources sources (Catalog.scan t rule root).files
      (extensions.map withoutDots) scope).imported importer b = some id ->
      id = ⟨file, d.name⟩ ∧ Means (extensions.map withoutDots) directory stem file := by
    intro id hid
    rcases means_of_imported sources hdistinct scope hrelative hnamed htarget hid with
      ⟨hother, hmeans, hidName⟩
    have hsame := hsole id.file hother hmeans
    refine ⟨?_, hsame ▸ hmeans⟩
    rw [← hname, ← hidName, ← hsame]
  refine ⟨exists_extension_of_mem_scan hrule hfile hext, ?_, ?_⟩
  · intro h
    rcases h with ⟨e, he, hwritten⟩
    have hsome := imported_isSome sources hdistinct scope hrelative hnamed htarget hfile
      (.extended (List.mem_map_of_mem he) hwritten) hd hname.symm
    rcases Option.isSome_iff_exists.mp hsome with ⟨id, hid⟩
    rw [resolveBinding, hid, (hunique id hid).left]
  · intro hmissing
    have hnone : (ofSources sources (Catalog.scan t rule root).files
        (extensions.map withoutDots) scope).imported importer b = none := by
      rw [Option.eq_none_iff_forall_ne_some]
      intro id hid
      rcases extended_of_means hstem hparts (hunique id hid).right with ⟨e, he, hwritten⟩
      rcases List.mem_map.mp he with ⟨known, hknown, rfl⟩
      rw [hmissing known hknown] at hwritten
      cases hwritten
    rw [resolveBinding, hnone, hname]
    rfl

end Scan

/-- Three files of the same name, one of which has its extension in capitals. -/
def threeButtons : FileTree :=
  ⟨.directory [("app", .directory [
    ("App.jsx", .file (.text "")),
    ("a", .directory [("Button.jsx", .file (.text ""))]),
    ("b", .directory [("Button.JSX", .file (.text ""))]),
    ("c", .directory [("Button.jsx", .file (.text ""))])])], []⟩

def jsxScripts : CatalogRule :=
  ⟨["jsx"], []⟩

theorem wellFormed_threeButtons : threeButtons.top.WellFormed := by
  simp only [threeButtons, Entry.wellFormed_directory_iff, Entry.wellFormed_file,
    List.forall_mem_cons, List.not_mem_nil, false_imp_iff, implies_true]
  decide

theorem scan_threeButtons : (Catalog.scan threeButtons jsxScripts ⟨"/app"⟩).files =
    [⟨"/app/App.jsx"⟩, ⟨"/app/a/Button.jsx"⟩, ⟨"/app/b/Button.JSX"⟩, ⟨"/app/c/Button.jsx"⟩] := by
  have hresolve : threeButtons.resolve false ⟨"/app"⟩ = .ok ["app"] :=
    FileTree.resolve_of_pieces (by decide) (by decide) rfl (by nofun) false
  have hskip : forall path, jsxScripts.excludes ⟨"/app"⟩ path = false := by
    intro path
    simp [CatalogRule.excludes, jsxScripts]
  have hwalk : threeButtons.walk (jsxScripts.excludes ⟨"/app"⟩) ⟨"/app"⟩ =
      [.ok ⟨"/app/App.jsx"⟩, .ok ⟨"/app/a/Button.jsx"⟩, .ok ⟨"/app/b/Button.JSX"⟩,
        .ok ⟨"/app/c/Button.jsx"⟩] := by
    rw [FileTree.walk, FileTree.entry, hresolve]
    simp [threeButtons, Entry.at?, Entry.named?, FileTree.walkEntry_directory,
      FileTree.walkEntry_file, hskip, Entry.listing_of_pairwise, Path.join, Path.isAbsolute]
  have hlisted : (Catalog.listed [.ok ⟨"/app/App.jsx"⟩, .ok ⟨"/app/a/Button.jsx"⟩,
      .ok ⟨"/app/b/Button.JSX"⟩, .ok ⟨"/app/c/Button.jsx"⟩]).filter jsxScripts.hasExtension =
      [⟨"/app/App.jsx"⟩, ⟨"/app/a/Button.jsx"⟩, ⟨"/app/b/Button.JSX"⟩, ⟨"/app/c/Button.jsx"⟩] := rfl
  rw [Catalog.scan, hwalk, hlisted]
  exact List.mergeSort_of_pairwise (by decide +kernel)

theorem ofTexts_jsxScripts : CatalogRule.ofTexts [".jsx"] [] = .ok jsxScripts :=
  CatalogRule.ofTexts_eq (by decide +kernel) (by decide +kernel)

/-- Every file defines a button. -/
def buttonSources (path : Path) : Option SourceFile :=
  some (SourceFile.ofText path .jsx "const Button = () => <b/>;")

theorem import_finds_file_by_written_extension_threeButtons :
    threeButtons.top.WellFormed ∧ CatalogRule.ofTexts [".jsx"] [] = .ok jsxScripts ∧
      (ofSources buttonSources (Catalog.scan threeButtons jsxScripts ⟨"/app"⟩).files
        ([".jsx"].map withoutDots) .declaration).resolveBinding ⟨"/app/App.jsx"⟩
          ⟨"Button", .default, "./a/Button", 1⟩ = some ⟨⟨"/app/a/Button.jsx"⟩, "Button"⟩ ∧
      ((discover buttonSources (Catalog.scan threeButtons jsxScripts ⟨"/app"⟩).files).lookup
        "Button").map (fun d => d.file.text) = some "/app/c/Button.jsx" := by
  have hfile : (⟨"/app/a/Button.jsx"⟩ : Path) ∈
      (Catalog.scan threeButtons jsxScripts ⟨"/app"⟩).files := by
    simp [scan_threeButtons]
  have hparts : (Path.mk "/app/a/Button.jsx").parts =
      (Path.mk "/app/a").parts ++ [.name ("Button" ++ "." ++ "jsx")] := by decide +kernel
  have hsole : forall other, other ∈ (Catalog.scan threeButtons jsxScripts ⟨"/app"⟩).files ->
      Means ([".jsx"].map withoutDots) ⟨"/app/a"⟩ "Button" other -> other = ⟨"/app/a/Button.jsx"⟩ := by
    intro other hother hmeans
    simp only [scan_threeButtons, List.mem_cons, List.not_mem_nil, or_false] at hother
    rcases hother with rfl | rfl | rfl | rfl
    · exact absurd hmeans (by decide +kernel)
    · rfl
    · exact absurd hmeans (by decide +kernel)
    · exact absurd hmeans (by decide +kernel)
  have hdeclarations : (SourceFile.ofText ⟨"/app/a/Button.jsx"⟩ .jsx
      "const Button = () => <b/>;").declarations = [⟨"Button", .arrowFunction, 1, true, ["b"]⟩] := by
    decide +kernel
  have hd : Definition.ofDeclaration ⟨"/app/a/Button.jsx"⟩ ⟨"Button", .arrowFunction, 1, true, ["b"]⟩ ∈
      definitionsAt buttonSources ⟨"/app/a/Button.jsx"⟩ :=
    Registry.mem_definitionsAt.mpr ⟨_, _, rfl, by simp [hdeclarations], rfl, rfl⟩
  refine ⟨wellFormed_threeButtons, ofTexts_jsxScripts, ?_, ?_⟩
  · exact (import_finds_file_by_written_extension wellFormed_threeButtons ofTexts_jsxScripts ⟨"/app"⟩
      buttonSources .declaration hfile hparts (by decide +kernel) hsole hd (by decide +kernel)
      (by decide) rfl (by decide +kernel)).right.left
        ⟨".jsx", List.mem_singleton_self _, by decide +kernel⟩
  · rw [scan_threeButtons]
    decide +kernel

/-- The catalog lists a button with its extension in capitals and nothing else beside it, and
the import leads there, but it means the button of another file. -/
theorem import_misses_capital_extension :
    threeButtons.top.WellFormed ∧ CatalogRule.ofTexts [".jsx"] [] = .ok jsxScripts ∧
      (Catalog.scan threeButtons jsxScripts ⟨"/app"⟩).files.map Path.text =
        ["/app/App.jsx", "/app/a/Button.jsx", "/app/b/Button.JSX", "/app/c/Button.jsx"] ∧
      (definitionsAt buttonSources ⟨"/app/b/Button.JSX"⟩).map Definition.name = ["Button"] ∧
      (target ⟨"/app/App.jsx"⟩ "./b/Button").text = "/app/b/Button" ∧
      ((ofSources buttonSources (Catalog.scan threeButtons jsxScripts ⟨"/app"⟩).files
        ([".jsx"].map withoutDots) .declaration).resolveBinding ⟨"/app/App.jsx"⟩
          ⟨"Button", .default, "./b/Button", 1⟩).map (fun id => id.file.text) =
        some "/app/c/Button.jsx" := by
  rw [scan_threeButtons]
  refine ⟨wellFormed_threeButtons, ofTexts_jsxScripts, rfl, ?_, ?_, ?_⟩ <;> decide +kernel

end Resolver
end JsxUsage
