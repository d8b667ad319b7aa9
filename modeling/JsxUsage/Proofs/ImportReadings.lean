import JsxUsage.Proofs.ImportCandidates

/-!
# What a relative import means

A relative module leads to a place, which is told by walking its segments from the
directory of the importing file.  There the module can be read as a file of its own, as a
file that lacks its extension, or as a directory with an index file.  This module proves
that an import means the component of the first of these files that defines one of its
name, whoever owns the name, and the owner of the name if there is no such file.
-/

namespace JsxUsage

namespace Path

/-!
# The path at a place
-/

/-- The place to which a text leads from a place. -/
def reach (place : List String) (text : String) : List String :=
  (segments text).foldl advance place

/-- The absolute path of a place. -/
def atPlace (place : List String) : Path :=
  ⟨"/" ++ "/".intercalate place⟩

theorem isName_of_mem_advance {place : List String} (hplace : forall name, name ∈ place -> IsName name)
    {segment : String} (hslash : '/' ∉ segment.toList) {name : String}
    (hname : name ∈ advance place segment) : IsName name := by
  unfold advance at hname
  split_ifs at hname with hstay hup
  · exact hplace name hname
  · exact hplace name (List.mem_of_mem_dropLast hname)
  · rcases List.mem_append.mp hname with hold | hnew
    · exact hplace name hold
    · rw [List.mem_singleton.mp hnew]
      exact ⟨fun h => hstay (Or.inl h), fun h => hstay (Or.inr h), hup, hslash⟩

theorem isName_of_mem_reach {place : List String} (hplace : forall name, name ∈ place -> IsName name)
    (text : String) {name : String} (hname : name ∈ reach place text) : IsName name := by
  have hsegments : forall segment, segment ∈ segments text -> '/' ∉ segment.toList := by
    intro segment hsegment
    rcases List.mem_map.mp hsegment with ⟨piece, hpiece, rfl⟩
    rw [String.toList_ofList]
    exact slash_not_mem_piece hpiece
  have hrun : forall name, name ∈ reach place text -> IsName name := by
    apply List.foldlRecOn (motive := fun place => forall name, name ∈ place -> IsName name) _ _ hplace
    intro place hplace segment hsegment name hname
    exact isName_of_mem_advance hplace (hsegments segment hsegment) hname
  exact hrun name hname

/-- Whatever stands behind the last slash may have parts of its own. -/
theorem parts_atPlace_concat {place : List String} (hplace : forall name, name ∈ place -> IsName name)
    (last : String) :
    (atPlace (place ++ [last])).parts =
      .root :: place.map .name ++ (pieces last.toList).filterMap (partOf false) := by
  have hpieces : pieces (['/'].intercalate ((place ++ [last]).map String.toList)) =
      place.map String.toList ++ pieces last.toList := by
    induction place with
    | nil => simp
    | cons name place ih =>
        have hrest := ih fun other hother => hplace other (List.mem_cons_of_mem name hother)
        have hslash := (hplace name List.mem_cons_self).slashFree
        have hcons : ['/'].intercalate (((name :: place) ++ [last]).map String.toList) =
            name.toList ++ '/' :: ['/'].intercalate ((place ++ [last]).map String.toList) := by
          cases place <;> simp [List.intercalate_cons_cons]
        rw [hcons, pieces_append, hrest, pieces_of_isName (hplace name List.mem_cons_self)]
        rfl
  have hnames : (place.map String.toList).filterMap (partOf false) = place.map .name := by
    rw [List.filterMap_map, ← List.filterMap_eq_map]
    apply List.filterMap_congr
    intro name hname
    exact partOf_of_isName (hplace name hname)
  have htext : (atPlace (place ++ [last])).text.toList =
      '/' :: ['/'].intercalate ((place ++ [last]).map String.toList) := by
    simp [atPlace]
  rw [parts_absolute htext, hpieces, List.filterMap_append, hnames]
  rfl

theorem parts_atPlace {place : List String} (hplace : forall name, name ∈ place -> IsName name) :
    (atPlace place).parts = .root :: place.map .name := by
  induction place using List.reverseRecOn with
  | nil => rfl
  | append_singleton place last _ =>
      have hlast := hplace last (List.mem_append_right place (List.mem_singleton_self last))
      rw [parts_atPlace_concat (fun name hname => hplace name (List.mem_append_left [last] hname)),
        filterMap_pieces_of_isName hlast, List.map_append]
      rfl

theorem text_atPlace_append (place : List String) (last tail : String) :
    (atPlace (place ++ [last])).text ++ tail = (atPlace (place ++ [last ++ tail])).text := by
  by_cases hplace : place = []
  · simp [atPlace, hplace, String.append_assoc]
  · simp [atPlace, String.intercalate_append_of_ne_nil hplace, String.append_assoc]

theorem parts_atPlace_join {place : List String} (hplace : forall name, name ∈ place -> IsName name)
    {tail : String} (htail : (Path.mk tail).isAbsolute = false) :
    ((atPlace place).join ⟨tail⟩).parts = (atPlace (place ++ [tail])).parts := by
  have hne : (atPlace place).text ≠ "" := by simp [atPlace]
  rw [parts_join_relative hne htail, parts_atPlace hplace, parts_atPlace_concat hplace,
    ← filterMap_pieces_relative htail]

theorem isAbsolute_append {name : String} (hname : IsName name) (tail : String) :
    (Path.mk (name ++ tail)).isAbsolute = false := by
  have habsolute := isAbsolute_of_isName hname
  unfold isAbsolute at habsolute ⊢
  rw [String.toList_append]
  cases htext : name.toList with
  | nil => exact absurd (String.toList_inj.mp htext) hname.nonempty
  | cons c rest =>
      rw [htext] at habsolute
      exact habsolute

/-- An extension is put behind the text of a path, the path of the root included. -/
theorem parts_withFileName_atPlace {place : List String}
    (hplace : forall name, name ∈ place -> IsName name) {base : Path}
    (hbase : base.parts = .root :: place.map .name) (ext : String) :
    (base.withFileName (base.fileName?.getD "" ++ "." ++ ext)).parts =
      (Path.mk ((atPlace place).text ++ "." ++ ext)).parts := by
  rw [String.append_assoc, String.append_assoc]
  induction place using List.reverseRecOn with
  | nil =>
      have hfile : base.fileName? = none := by simp [fileName?, hbase]
      have htail : (Path.mk ("." ++ ext)).isAbsolute = false := by simp [isAbsolute]
      have hjoin := parts_join_congr (hbase.trans (parts_atPlace hplace).symm) ⟨"." ++ ext⟩
      rw [withFileName, hfile, Option.getD_none, String.empty_append]
      exact hjoin.trans (parts_atPlace_join hplace htail)
  | append_singleton place stem _ =>
      have hinit : forall name, name ∈ place -> IsName name :=
        fun name hname => hplace name (List.mem_append_left [stem] hname)
      have hstem := hplace stem (List.mem_append_right place (List.mem_singleton_self stem))
      have hparts : base.parts = (atPlace place).parts ++ [.name stem] := by
        rw [hbase, parts_atPlace hinit, List.map_append]
        rfl
      rw [fileName?_of_parts hparts, Option.getD_some, parts_withFileName hparts,
        parts_atPlace_join hinit (isAbsolute_append hstem _), text_atPlace_append]

/-!
# Walking from a directory of names
-/

theorem foldl_normalStep_names (names : List String) (done : List Part) :
    (names.map .name).foldl normalStep done = done ++ names.map .name := by
  induction names generalizing done with
  | nil => exact (List.append_nil done).symm
  | cons name names ih =>
      rw [List.map_cons, List.foldl_cons, ih]
      simp [normalStep]

theorem normalParts_join_names {directory : Path} {place : List String}
    (hdirectory : directory.parts = .root :: place.map .name) {text : String}
    (htext : (Path.mk text).isAbsolute = false) :
    normalParts (directory.join ⟨text⟩).parts = .root :: (reach place text).map .name := by
  have hne : directory.text ≠ "" := by
    rw [Ne, ← parts_eq_nil_iff, hdirectory]
    exact List.cons_ne_nil _ _
  have hstart : (.root :: place.map .name : List Part).foldl normalStep [] = partsAt true place := by
    rw [List.foldl_cons, foldl_normalStep_names]
    rfl
  rw [normalParts_eq, parts_join_relative hne htext, hdirectory, List.foldl_append, hstart,
    ← filterMap_pieces_relative htext, foldl_pieces]
  rfl

end Path

namespace Resolver

theorem parts_target {importer : Path} {directory : List String} {file : String}
    (himporter : importer.parts = .root :: (directory ++ [file]).map .name) {source : String}
    (hsource : (Path.mk source).isAbsolute = false) :
    (target importer source).parts = .root :: (Path.reach directory source).map .name := by
  have hnames : forall name, name ∈ directory -> Path.IsName name := by
    intro name hname
    apply Path.isName_of_mem_parts (p := importer)
    simp [himporter, hname]
  have hproper : forall place : List String, (forall name, name ∈ place -> Path.IsName name) ->
      (Path.ofParts (.root :: place.map .name)).parts = .root :: place.map .name := by
    intro place hplace
    apply Path.parts_ofParts_of_proper
    · intro name hname
      apply hplace name
      simpa using hname
    · simp
    · simp
  have hdirectory : directoryOf importer = Path.ofParts (.root :: directory.map .name) := by
    have hlast : importer.parts = (.root :: directory.map .name) ++ [.name file] := by
      simp [himporter]
    rw [directoryOf, Path.parent?_of_parts hlast]
    rfl
  have hplace := Path.normalParts_join_names (hproper directory hnames) hsource
  rw [← hdirectory] at hplace
  have htarget : target importer source =
      Path.ofParts (.root :: (Path.reach directory source).map .name) := by
    rw [← hplace]
    rfl
  rw [htarget]
  apply hproper
  intro name hname
  exact Path.isName_of_mem_reach hnames source hname

/-- The files that a module at a place can be read as, in the order in which they are tried. -/
def readings (extensions : List String) (place : List String) : List Path :=
  Path.atPlace place :: extensions.map (fun e => ⟨(Path.atPlace place).text ++ "." ++ e⟩) ++
    extensions.map (fun e => (Path.atPlace place).join ⟨"index." ++ e⟩)

/-- The path is cataloged, and the component of the name is defined there. -/
structure Provides (r : Resolver) (name : String) (path : Path) (d : Definition) : Prop where
  cataloged : exists file, file ∈ r.files ∧ (file == path) = true
  registered : d ∈ r.registry.definitions
  there : (d.file == path) = true
  named : d.name = name

theorem definedAt_congr (r : Resolver) (name : String) {p q : Path} (h : p.parts = q.parts) :
    r.definedAt name p = r.definedAt name q := by
  have hfiles : r.files.any (· == p) = r.files.any (· == q) := by
    congr 1
    funext file
    exact BEq.congr_right (Path.beq_iff_parts.mpr h)
  have hid : ((⟨p, name⟩ : ComponentId) == ⟨q, name⟩) = true :=
    ComponentId.beq_iff_key.mpr (Prod.ext h rfl)
  unfold definedAt Registry.definedIn Registry.get?
  rw [hfiles, Index.get?_congr hid]

theorem definedAt_eq_some_iff_provides {r : Resolver} {name : String}
    {path : Path} {id : ComponentId} :
    r.definedAt name path = some id <-> exists d, r.Provides name path d ∧ d.id = id := by
  unfold definedAt
  constructor
  · intro h
    split_ifs at h with hfile
    rcases Option.map_eq_some_iff.mp h with ⟨d, hd, hid⟩
    rcases Registry.mem_of_get? hd with ⟨hmem, hsame⟩
    exact ⟨d, ⟨List.any_eq_true.mp hfile, hmem, ComponentId.file_beq_of_beq hsame,
      ComponentId.name_eq_of_beq hsame⟩, hid⟩
  · intro h
    rcases h with ⟨d, ⟨hfile, hmem, hpath, hname⟩, hid⟩
    have hsame : (d.id == ⟨path, name⟩) = true :=
      ComponentId.beq_iff_key.mpr (Prod.ext (Path.beq_iff_parts.mp hpath) hname)
    have hget : r.registry.definedIn path name = some d := by
      unfold Registry.definedIn Registry.get?
      rw [← Index.get?_congr hsame]
      exact Registry.get?_of_mem hmem
    rw [if_pos (List.any_eq_true.mpr hfile), hget, ← hid]
    rfl

/-!
# The first reading that provides a component
-/

/-- The candidates of a path and the readings of its place are spelled in different ways, but
they name the same files. -/
theorem map_definedAt_candidates (r : Resolver) {place : List String}
    (hplace : forall name, name ∈ place -> Path.IsName name) {base : Path}
    (hbase : base.parts = .root :: place.map .name) (name : String) :
    (r.candidates base).map (r.definedAt name) =
      (readings r.extensions place).map (r.definedAt name) := by
  have hsame : base.parts = (Path.atPlace place).parts :=
    hbase.trans (Path.parts_atPlace hplace).symm
  have hbare := definedAt_congr r name hsame
  have hextended : forall e, r.definedAt name (base.withFileName (base.fileName?.getD "" ++ "." ++ e)) =
      r.definedAt name ⟨(Path.atPlace place).text ++ "." ++ e⟩ :=
    fun e => definedAt_congr r name (Path.parts_withFileName_atPlace hplace hbase e)
  have hindex : forall e, r.definedAt name (base.join ⟨"index." ++ e⟩) =
      r.definedAt name ((Path.atPlace place).join ⟨"index." ++ e⟩) :=
    fun e => definedAt_congr r name (Path.parts_join_congr hsame _)
  simp only [candidates, readings, List.cons_append, List.map_append, List.map_cons, List.map_map,
    Function.comp_def, hbare, hextended, hindex]

section Import

variable (r : Resolver) {importer : Path} {directory : List String} {file : String}
  (himporter : importer.parts = .root :: (directory ++ [file]).map .name) {b : ImportBinding}
  (hrelative : b.isRelative = true) (hwhole : b.imported ≠ .whole)

include himporter hrelative hwhole

theorem imported_eq_findSome? : r.imported importer b =
    (readings r.extensions (Path.reach directory b.source)).findSome? (r.definedAt b.lookupName) := by
  have hsource := Path.isAbsolute_of_dotted ((ImportBinding.isRelative_iff b).mp hrelative).left
  have hplace : forall name, name ∈ Path.reach directory b.source -> Path.IsName name := by
    intro name hname
    apply Path.isName_of_mem_parts (p := target importer b.source)
    simp [parts_target himporter hsource, hname]
  have hmap := map_definedAt_candidates r hplace (parts_target himporter hsource) b.lookupName
  have hopen : (b.isRelative && b.imported != .whole) = true := by simp [hrelative, hwhole]
  have hfound := congrArg (List.findSome? id) hmap
  rw [List.findSome?_map, List.findSome?_map] at hfound
  rw [imported, if_pos hopen]
  exact hfound

theorem imported_of_first {front back : List Path} {path : Path} {d : Definition}
    (hsplit : readings r.extensions (Path.reach directory b.source) = front ++ path :: back)
    (hfront : forall p e, p ∈ front -> ¬ r.Provides b.lookupName p e)
    (hpath : r.Provides b.lookupName path d) : r.imported importer b = some d.id := by
  have hnone : front.findSome? (r.definedAt b.lookupName) = none := by
    rw [List.findSome?_eq_none_iff]
    intro p hp
    rw [Option.eq_none_iff_forall_ne_some]
    intro id hid
    rcases definedAt_eq_some_iff_provides.mp hid with ⟨e, he, _⟩
    exact hfront p e hp he
  have hsome := definedAt_eq_some_iff_provides.mpr ⟨d, hpath, rfl⟩
  rw [imported_eq_findSome? r himporter hrelative hwhole, hsplit, List.findSome?_append, hnone,
    Option.none_or, List.findSome?_cons, hsome]

theorem imported_of_none
    (h : forall p e, p ∈ readings r.extensions (Path.reach directory b.source) ->
      ¬ r.Provides b.lookupName p e) : r.imported importer b = none := by
  rw [Option.eq_none_iff_forall_ne_some]
  intro id hid
  rw [imported_eq_findSome? r himporter hrelative hwhole] at hid
  rcases List.exists_of_findSome?_eq_some hid with ⟨p, hp, hdefined⟩
  rcases definedAt_eq_some_iff_provides.mp hdefined with ⟨e, he, _⟩
  exact h p e hp he

end Import

theorem relative_import_means_first_reading {r : Resolver} {importer : Path}
    {directory : List String} {file : String}
    (himporter : importer.parts = .root :: (directory ++ [file]).map .name) {b : ImportBinding}
    (hsource : "./".toList <+: b.source.toList ∨ "../".toList <+: b.source.toList ∨ b.source = ".")
    (hnamed : b.imported = .default ∨ exists name, b.imported = .named name) :
    (forall front path back d,
        readings r.extensions (Path.reach directory b.source) = front ++ path :: back ->
        (forall p e, p ∈ front -> ¬ r.Provides b.lookupName p e) ->
        r.Provides b.lookupName path d -> r.resolveBinding importer b = some d.id) ∧
      ((forall p e, p ∈ readings r.extensions (Path.reach directory b.source) ->
          ¬ r.Provides b.lookupName p e) ->
        r.resolveBinding importer b = (r.registry.lookup b.lookupName).map Definition.id) ∧
      forall id, r.resolveBinding importer b = some id ->
        r.registry.Registered id ∧ id.name = b.lookupName := by
  have hrelative : b.isRelative = true := by
    rw [ImportBinding.isRelative, Bool.or_eq_true, Bool.or_eq_true, List.isPrefixOf_iff_prefix,
      List.isPrefixOf_iff_prefix, beq_iff_eq, or_assoc]
    exact hsource
  have hwhole : b.imported ≠ .whole := by
    intro hwhole
    rcases hnamed with hdefault | ⟨name, hname⟩
    · rw [hwhole] at hdefault
      cases hdefault
    · rw [hwhole] at hname
      cases hname
  refine ⟨?_, ?_, ?_⟩
  · intro front path back d hsplit hfront hpath
    have himported :=
      imported_of_first r himporter hrelative hwhole hsplit hfront hpath
    simp only [resolveBinding, himported]
  · intro hnone
    have himported := imported_of_none r himporter hrelative hwhole hnone
    simp only [resolveBinding, himported]
  · intro id hid
    rcases definition_of_resolveBinding hid with ⟨d, hd, rfl, hname⟩
    exact ⟨Registry.registered_of_mem hd, hname⟩

/-- The module leads to a directory with an index file, and another file owns the name. -/
theorem relative_import_means_first_reading_rivalCards :
    rivalCards.resolveBinding ⟨"/app/src/app/App.jsx"⟩ ⟨"Card", .default, "./..//", 1⟩ =
        some ⟨⟨"/app/src/index.jsx"⟩, "Card"⟩ ∧
      (rivalCards.registry.lookup "Card").map (fun d => d.file.text) = some "/app/z/Card.jsx" := by
  have himporter : (Path.mk "/app/src/app/App.jsx").parts =
      .root :: (["app", "src", "app"] ++ ["App.jsx"]).map .name := by decide +kernel
  have hreadings : (readings rivalCards.extensions (Path.reach ["app", "src", "app"] "./..//")) =
      [⟨"/app/src"⟩, ⟨"/app/src.js"⟩, ⟨"/app/src.jsx"⟩, ⟨"/app/src/index.js"⟩] ++
        ⟨"/app/src/index.jsx"⟩ :: [] := by
    have hplace : Path.reach ["app", "src", "app"] "./..//" = ["app", "src"] := by decide +kernel
    rw [hplace]
    rfl
  refine ⟨?_, by decide +kernel⟩
  refine (relative_import_means_first_reading himporter (Or.inl (by decide)) (Or.inl rfl)).left
    _ _ _ ⟨⟨⟨"/app/src/index.jsx"⟩, "Card"⟩, .arrowFunction, 1⟩ hreadings ?_ ?_
  · intro p e hp hprovides
    rcases hprovides.cataloged with ⟨file, hfile, hsame⟩
    have hmissing : forall p, p ∈ [(⟨"/app/src"⟩ : Path), ⟨"/app/src.js"⟩, ⟨"/app/src.jsx"⟩,
        ⟨"/app/src/index.js"⟩] -> forall file, file ∈ rivalCards.files -> (file == p) = false := by
      decide +kernel
    rw [hmissing p hp file hfile] at hsame
    cases hsame
  · have hdefinitions : rivalCards.registry.definitions =
        [⟨⟨⟨"/app/src/index.jsx"⟩, "Card"⟩, .arrowFunction, 1⟩,
          ⟨⟨⟨"/app/z/Card.jsx"⟩, "Card"⟩, .arrowFunction, 1⟩] := by rfl
    refine ⟨⟨⟨"/app/src/index.jsx"⟩, by simp [rivalCards], BEq.rfl⟩, ?_, BEq.rfl, rfl⟩
    rw [hdefinitions]
    exact List.mem_cons_self

end Resolver
end JsxUsage
