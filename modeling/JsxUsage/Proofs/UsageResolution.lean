import JsxUsage.Discovery
import JsxUsage.Proofs.PathOrder
import JsxUsage.Proofs.RegistryLookup
import JsxUsage.Proofs.UsageReachability
import JsxUsage.Resolution

/-!
# What a component uses

The children of all components are found file by file, with the definitions grouped by
file and the imports of a file resolved in advance.  This module proves that the outcome
can be told for each component on its own, from its definition and the source of its
file: the children follow the tags, and a tag counts if its name is imported and the
imported name is that of a component.
-/

namespace JsxUsage

theorem ComponentId.file_beq_of_beq {c d : ComponentId} (h : (c == d) = true) :
    (c.file == d.file) = true :=
  Path.beq_iff_parts.mpr (congrArg Prod.fst (beq_iff_key.mp h))

/-!
# Groups

Grouping the definitions by file only changes their order.  The file of a group is that
of its first definition, so it can differ from the files of the others in spelling.
-/

namespace Registry

/-- The file of each group is that of one of its definitions, and the same as that of all
of them. -/
def Gathered (groups : List (Path × List Definition)) : Prop :=
  forall file group, (file, group) ∈ groups ->
    (exists d, d ∈ group ∧ d.file = file) ∧ forall d, d ∈ group -> (file == d.file) = true

theorem addToGroup_perm (d : Definition) (groups : List (Path × List Definition)) :
    ((addToGroup d groups).flatMap Prod.snd).Perm (groups.flatMap Prod.snd ++ [d]) := by
  induction groups with
  | nil => exact List.Perm.refl [d]
  | cons first rest ih =>
      rcases first with ⟨file, group⟩
      by_cases hsame : (file == d.file) = true
      · rw [addToGroup, if_pos hsame, List.flatMap_cons, List.flatMap_cons]
        show (group ++ [d] ++ rest.flatMap Prod.snd).Perm (group ++ rest.flatMap Prod.snd ++ [d])
        rw [List.append_assoc, List.append_assoc]
        exact List.Perm.append_left group List.perm_append_comm
      · rw [addToGroup, if_neg hsame, List.flatMap_cons, List.flatMap_cons, List.append_assoc]
        exact List.Perm.append_left group ih

theorem gathered_addToGroup (d : Definition) {groups : List (Path × List Definition)}
    (h : Gathered groups) : Gathered (addToGroup d groups) := by
  induction groups with
  | nil =>
      intro file group hmem
      rw [addToGroup, List.mem_singleton] at hmem
      cases hmem
      refine ⟨⟨d, List.mem_singleton_self d, rfl⟩, ?_⟩
      intro e he
      rw [List.mem_singleton.mp he]
      exact BEq.rfl
  | cons first rest ih =>
      rcases first with ⟨file, group⟩
      have hfirst := h file group List.mem_cons_self
      have hrest : Gathered rest := by
        intro other others hmem
        exact h other others (List.mem_cons_of_mem _ hmem)
      intro other others hmem
      by_cases hsame : (file == d.file) = true
      · rw [addToGroup, if_pos hsame] at hmem
        rcases List.mem_cons.mp hmem with hhere | hlater
        · cases hhere
          rcases hfirst with ⟨⟨e, he, hfile⟩, hall⟩
          refine ⟨⟨e, List.mem_append_left [d] he, hfile⟩, ?_⟩
          intro x hx
          rcases List.mem_append.mp hx with hold | hnew
          · exact hall x hold
          · rw [List.mem_singleton.mp hnew]
            exact hsame
        · exact hrest other others hlater
      · rw [addToGroup, if_neg hsame] at hmem
        rcases List.mem_cons.mp hmem with hhere | hlater
        · cases hhere
          exact hfirst
        · exact ih hrest other others hlater

theorem groups_concat (ds : List Definition) (d : Definition) :
    groups (ds ++ [d]) = addToGroup d (groups ds) := by
  rw [groups, List.foldl_append]
  rfl

theorem groups_perm (ds : List Definition) : ((groups ds).flatMap Prod.snd).Perm ds := by
  induction ds using List.reverseRecOn with
  | nil => exact List.Perm.refl []
  | append_singleton ds d ih =>
      rw [groups_concat]
      exact (addToGroup_perm d _).trans (List.Perm.append_right [d] ih)

theorem byFile_perm (r : Registry) : (r.byFile.flatMap Prod.snd).Perm r.definitions :=
  groups_perm r.definitions

theorem gathered_groups (ds : List Definition) : Gathered (groups ds) := by
  induction ds using List.reverseRecOn with
  | nil =>
      intro file group hmem
      cases hmem
  | append_singleton ds d ih =>
      rw [groups_concat]
      exact gathered_addToGroup d ih

/-- No file is spelled in two ways. -/
def SpelledOnce (r : Registry) : Prop :=
  forall d e, d ∈ r.definitions -> e ∈ r.definitions -> (d.file == e.file) = true ->
    d.file = e.file

theorem file_of_mem_byFile {r : Registry} (h : SpelledOnce r) {file : Path}
    {group : List Definition} (hgroup : (file, group) ∈ r.byFile) {d : Definition}
    (hd : d ∈ group) : file = d.file := by
  have hmem : forall e, e ∈ group -> e ∈ r.definitions := by
    intro e he
    exact (byFile_perm r).mem_iff.mp (List.mem_flatMap.mpr ⟨(file, group), hgroup, he⟩)
  rcases gathered_groups r.definitions file group hgroup with ⟨⟨e, he, rfl⟩, hall⟩
  exact h e d (hmem e he) (hmem d hd) (hall d hd)

end Registry

/-!
# Lists under distinct keys
-/

namespace Adjacency

theorem pairs_ofLists {lists : List (ComponentId × List ComponentId)}
    (h : RepeatFree (lists.map Prod.fst)) : (ofLists lists).lists.pairs = lists := by
  induction lists using List.reverseRecOn with
  | nil => rfl
  | append_singleton lists entry ih =>
      rw [List.map_append, List.map_singleton, repeatFree_snoc] at h
      have hlists := ih h.left
      have hinsert : ofLists (lists ++ [entry]) = (ofLists lists).insert entry.1 entry.2 := by
        rw [ofLists, List.foldl_append]
        rfl
      rw [hinsert]
      show Index.set entry.1 entry.2 (ofLists lists).lists.pairs = lists ++ [entry]
      rw [hlists]
      apply Index.set_of_new
      intro pair hpair
      have hnew := List.any_eq_false.mp h.right pair.1 (List.mem_map_of_mem hpair)
      exact Bool.eq_false_iff.mpr hnew

end Adjacency

namespace Resolver

open Adjacency (RepeatFree)
open Registry (ofDefinitions)

/-!
# One component at a time
-/

/-- The components that a component uses, told from its definition. -/
def usesOf (r : Resolver) (sources : Path -> Option SourceFile) (d : Definition) :
    List ComponentId :=
  match sources d.file with
  | none => []
  | some source =>
      (tagsOf r.scope source.tags source.declarations d.name).filterMap
        (componentOf (r.bindings d.file source.imports))

theorem resolveFile_eq (r : Resolver) (sources : Path -> Option SourceFile) {file : Path}
    {group : List Definition} (h : forall d, d ∈ group -> file = d.file) :
    r.resolveFile sources (file, group) = group.map fun d => (d.id, r.usesOf sources d) := by
  unfold resolveFile
  cases hsource : sources file with
  | none =>
      apply List.map_congr_left
      intro d hd
      rw [usesOf, ← h d hd, hsource]
  | some source =>
      apply List.map_congr_left
      intro d hd
      rw [usesOf, ← h d hd, hsource]

theorem resolve_eq (r : Resolver) (sources : Path -> Option SourceFile)
    (hspelled : r.registry.SpelledOnce) :
    r.resolve sources = Adjacency.ofLists
      ((r.registry.byFile.flatMap Prod.snd).map fun d => (d.id, r.usesOf sources d)) := by
  unfold resolve
  rw [List.map_flatMap]
  congr 1
  apply List.flatMap_congr
  intro group hgroup
  apply resolveFile_eq
  intro d hd
  exact Registry.file_of_mem_byFile hspelled hgroup hd

section Entries

variable (r : Resolver) (sources : Path -> Option SourceFile)
  (hspelled : r.registry.SpelledOnce)
include hspelled

/-- Each component has one entry, which tells what it uses. -/
theorem pairs_resolve :
    (r.resolve sources).lists.pairs.Perm
      (r.registry.definitions.map fun d => (d.id, r.usesOf sources d)) := by
  have hperm := (Registry.byFile_perm r.registry).map fun d => (d.id, r.usesOf sources d)
  have hkeys := hperm.map Prod.fst
  rw [List.map_map, List.map_map] at hkeys
  rw [resolve_eq r sources hspelled, Adjacency.pairs_ofLists]
  · exact hperm
  · -- The keys are the registered components in another order, so none comes twice.
    rw [List.map_map, Registry.repeatFree_iff_nodup, (hkeys.map ComponentId.key).nodup_iff,
      ← Registry.repeatFree_iff_nodup]
    exact r.registry.repeatFree_ids

theorem find_resolve {d : Definition} (hd : d ∈ r.registry.definitions) {id : ComponentId}
    (hsame : (d.id == id) = true) :
    (r.resolve sources).lists.get? id = some (r.usesOf sources d) := by
  have hpairs := pairs_resolve r sources hspelled
  have hentry := hpairs.mem_iff.mpr (List.mem_map_of_mem hd)
  exact Index.find_of_mem (r.resolve sources).lists.distinct hentry hsame

theorem children_resolve {d : Definition} (hd : d ∈ r.registry.definitions) :
    (r.resolve sources).children d.id = r.usesOf sources d := by
  unfold Adjacency.children
  rw [find_resolve r sources hspelled hd BEq.rfl]
  rfl

theorem contains_resolve (id : ComponentId) :
    (r.resolve sources).contains id = true <-> r.registry.Registered id := by
  rw [Registry.registered_iff_mem]
  constructor
  · intro hcontains
    have hpairs := pairs_resolve r sources hspelled
    rcases Option.isSome_iff_exists.mp hcontains with ⟨uses, huses⟩
    rcases Index.mem_of_find huses with ⟨key, hentry, hsame⟩
    rcases List.mem_map.mp (hpairs.mem_iff.mp hentry) with ⟨d, hd, hkey⟩
    cases hkey
    exact ⟨d, hd, hsame⟩
  · intro h
    rcases h with ⟨d, hd, hsame⟩
    unfold Adjacency.contains Index.contains
    rw [find_resolve r sources hspelled hd hsame]
    rfl

end Entries

/-!
# Imports

Whether an import means a component depends on the imported name alone, and the module
only tells which of the components of that name is meant.
-/

section Imports

variable {r : Resolver}

theorem definition_of_definedAt {name : String} {path : Path} {id : ComponentId}
    (h : r.definedAt name path = some id) :
    exists d, d ∈ r.registry.definitions ∧ d.id = id ∧ d.name = name := by
  unfold definedAt at h
  split at h
  · rcases Option.map_eq_some_iff.mp h with ⟨d, hd, hid⟩
    rcases Registry.mem_of_get? hd with ⟨hmem, hsame⟩
    exact ⟨d, hmem, hid, ComponentId.name_eq_of_beq hsame⟩
  · cases h

theorem definition_of_resolveBinding {importer : Path} {b : ImportBinding} {id : ComponentId}
    (h : r.resolveBinding importer b = some id) :
    exists d, d ∈ r.registry.definitions ∧ d.id = id ∧ d.name = b.lookupName := by
  unfold resolveBinding at h
  cases himported : r.imported importer b with
  | some other =>
      rw [himported] at h
      cases h
      unfold imported at himported
      split at himported
      · rcases List.exists_of_findSome?_eq_some himported with ⟨path, _, hpath⟩
        exact definition_of_definedAt hpath
      · cases himported
  | none =>
      rw [himported] at h
      rcases Option.map_eq_some_iff.mp h with ⟨d, hd, hid⟩
      rcases Registry.mem_of_lookup hd with ⟨hmem, hname⟩
      exact ⟨d, hmem, hid, hname⟩

variable {ds : List Definition} (hr : r.registry = ofDefinitions ds)
include hr

theorem isSome_resolveBinding (importer : Path) (b : ImportBinding) :
    (r.resolveBinding importer b).isSome = r.registry.defines b.lookupName := by
  rw [Bool.eq_iff_iff]
  constructor
  · intro hsome
    rcases Option.isSome_iff_exists.mp hsome with ⟨id, hid⟩
    rcases definition_of_resolveBinding hid with ⟨d, hd, _, hname⟩
    exact List.any_eq_true.mpr ⟨d, hd, beq_iff_eq.mpr hname⟩
  · intro hdefines
    rw [hr, ← Registry.lookup_isSome_iff, ← hr] at hdefines
    unfold resolveBinding
    cases r.imported importer b with
    | some id => rfl
    | none =>
        show ((r.registry.lookup b.lookupName).map Definition.id).isSome = true
        rw [Option.isSome_map]
        exact hdefines

end Imports

/-- The first import that binds the name of a tag to the name of a component. -/
def importOf (registry : Registry) (imports : List ImportBinding) (tag : String) :
    Option ImportBinding :=
  imports.find? fun b => b.localName == tag && registry.defines b.lookupName

theorem componentOf_cons (name : String) (id : ComponentId)
    (bound : List (String × ComponentId)) (tag : String) :
    componentOf ((name, id) :: bound) tag =
      if name == tag then some id else componentOf bound tag := by
  unfold componentOf
  rw [List.find?_cons]
  show Option.map Prod.snd (match name == tag with | true => _ | false => _) = _
  cases name == tag with
  | true => rfl
  | false => rfl

theorem importOf_cons (registry : Registry) (b : ImportBinding) (imports : List ImportBinding)
    (tag : String) :
    importOf registry (b :: imports) tag =
      if b.localName == tag && registry.defines b.lookupName then some b
      else importOf registry imports tag := by
  unfold importOf
  rw [List.find?_cons]
  cases b.localName == tag && registry.defines b.lookupName with
  | true => rfl
  | false => rfl

theorem componentOf_bindings {r : Resolver} {ds : List Definition}
    (hr : r.registry = ofDefinitions ds) (importer : Path) (imports : List ImportBinding)
    (tag : String) :
    componentOf (r.bindings importer imports) tag =
      (importOf r.registry imports tag).bind (r.resolveBinding importer) := by
  induction imports with
  | nil => rfl
  | cons b rest ih =>
      rw [importOf_cons, ← isSome_resolveBinding hr importer b]
      unfold bindings at *
      rw [List.filterMap_cons]
      cases hid : r.resolveBinding importer b with
      | none =>
          -- An import that means nothing hides no later import of the same name.
          rw [Option.isSome_none, Bool.and_false]
          exact ih
      | some id =>
          show componentOf ((b.localName, id) :: _) tag = _
          rw [componentOf_cons, Option.isSome_some, Bool.and_true, ih]
          cases b.localName == tag with
          | true => exact hid.symm
          | false => rfl

/-!
# Tags
-/

/-- The tags that count for a component of the given name: those of the whole file, or
those of the last declaration of the name. -/
inductive Selects (source : SourceFile) (name : String) : UsageScope -> List String -> Prop where
  | file : Selects source name .file source.tags
  | declaration {front back : List Declaration} {d : Declaration} :
      source.declarations = front ++ d :: back ->
      d.name = name ->
      (forall e, e ∈ back -> e.name ≠ name) ->
      Selects source name .declaration d.tags

theorem selects_tagsOf {source : SourceFile} {d : Declaration} (hd : d ∈ source.declarations)
    (scope : UsageScope) :
    Selects source d.name scope (tagsOf scope source.tags source.declarations d.name) := by
  cases scope with
  | file => exact Selects.file
  | declaration =>
      unfold tagsOf
      cases hfind : source.declarations.reverse.find? fun e => e.name == d.name with
      | none =>
          have hnone := List.find?_eq_none.mp hfind d (List.mem_reverse.mpr hd)
          exact absurd BEq.rfl hnone
      | some last =>
          rcases List.find?_eq_some_iff_append.mp hfind with ⟨hname, back, front, hsplit, hback⟩
          have hdeclarations : source.declarations = front.reverse ++ last :: back.reverse := by
            rw [← List.reverse_reverse source.declarations, hsplit]
            simp
          refine Selects.declaration hdeclarations (beq_iff_eq.mp hname) ?_
          intro e he hsame
          have hother := hback e (List.mem_reverse.mp he)
          simp [hsame] at hother

end Resolver

/-!
# Files
-/

namespace Registry

/-- The components that the file at a path defines. -/
def definitionsAt (sources : Path -> Option SourceFile) (path : Path) : List Definition :=
  match sources path with
  | none => []
  | some source => definitionsIn path source

theorem discover_eq (sources : Path -> Option SourceFile) (files : List Path) :
    discover sources files = ofDefinitions (files.flatMap (definitionsAt sources)) :=
  rfl

theorem mem_definitionsAt {sources : Path -> Option SourceFile} {path : Path} {d : Definition} :
    d ∈ definitionsAt sources path <->
      exists source declaration, sources path = some source ∧
        declaration ∈ source.declarations ∧ declaration.isComponent = true ∧
        Definition.ofDeclaration path declaration = d := by
  unfold definitionsAt
  cases hsource : sources path with
  | none => simp
  | some source => simp [definitionsIn, and_assoc]

theorem file_of_mem_definitionsAt {sources : Path -> Option SourceFile} {path : Path}
    {d : Definition} (h : d ∈ definitionsAt sources path) : d.file = path := by
  rcases mem_definitionsAt.mp h with ⟨_, _, _, _, _, rfl⟩
  rfl

theorem mem_discover {sources : Path -> Option SourceFile} {files : List Path} {d : Definition}
    (h : d ∈ (discover sources files).definitions) :
    d.file ∈ files ∧ d ∈ definitionsAt sources d.file := by
  rcases List.mem_flatMap.mp (mem_of_mem_ofDefinitions h) with ⟨path, hpath, hd⟩
  rw [file_of_mem_definitionsAt hd]
  exact ⟨hpath, hd⟩

/-- No path of the list is the same as a later one. -/
def DistinctPaths (files : List Path) : Prop :=
  files.Pairwise fun p q => (p == q) = false

instance (files : List Path) : Decidable (DistinctPaths files) :=
  inferInstanceAs (Decidable (files.Pairwise fun p q => (p == q) = false))

theorem eq_of_distinctPaths {files : List Path} (h : DistinctPaths files) {p q : Path}
    (hp : p ∈ files) (hq : q ∈ files) (hsame : (p == q) = true) : p = q := by
  induction files with
  | nil => cases hp
  | cons first rest ih =>
      rcases List.pairwise_cons.mp h with ⟨haway, hrest⟩
      rcases List.mem_cons.mp hp with rfl | hpLater
      · rcases List.mem_cons.mp hq with rfl | hqLater
        · rfl
        · rw [haway q hqLater] at hsame
          cases hsame
      · rcases List.mem_cons.mp hq with rfl | hqLater
        · rw [BEq.comm, haway p hpLater] at hsame
          cases hsame
        · exact ih hrest hpLater hqLater

theorem spelledOnce_discover (sources : Path -> Option SourceFile) {files : List Path}
    (h : DistinctPaths files) : SpelledOnce (discover sources files) := by
  intro d e hd he hsame
  exact eq_of_distinctPaths h (mem_discover hd).left (mem_discover he).left hsame

end Registry

namespace Resolver

open Registry (discover DistinctPaths definitionsAt)

/-- The resolver of a project, with the components of its files. -/
def ofSources (sources : Path -> Option SourceFile) (files : List Path)
    (extensions : List String) (scope : UsageScope) : Resolver :=
  ⟨discover sources files, files, extensions, scope⟩

/-- What the components of a project use. -/
def usages (sources : Path -> Option SourceFile) (files : List Path)
    (extensions : List String) (scope : UsageScope) : Adjacency :=
  (ofSources sources files extensions scope).resolve sources

section Project

variable (sources : Path -> Option SourceFile) {files : List Path} (extensions : List String)
  (scope : UsageScope) (hdistinct : DistinctPaths files)
include hdistinct

theorem pairs_usages :
    (usages sources files extensions scope).lists.pairs.Perm
      ((discover sources files).definitions.map fun d =>
        (d.id, (ofSources sources files extensions scope).usesOf sources d)) :=
  pairs_resolve (ofSources sources files extensions scope) sources
    (Registry.spelledOnce_discover sources hdistinct)

theorem children_usages {d : Definition} (hd : d ∈ (discover sources files).definitions) :
    (usages sources files extensions scope).children d.id =
      (ofSources sources files extensions scope).usesOf sources d :=
  children_resolve (ofSources sources files extensions scope) sources
    (Registry.spelledOnce_discover sources hdistinct)
    hd

theorem contains_usages (id : ComponentId) :
    (usages sources files extensions scope).contains id = true <->
      (discover sources files).Registered id :=
  contains_resolve (ofSources sources files extensions scope) sources
    (Registry.spelledOnce_discover sources hdistinct)
    id

end Project

/-- What a component uses follows the tags that count for it. -/
theorem usesOf_eq (sources : Path -> Option SourceFile) (files : List Path)
    (extensions : List String) (scope : UsageScope) {d : Definition}
    (hd : d ∈ (discover sources files).definitions) :
    exists source tags, sources d.file = some source ∧ Selects source d.name scope tags ∧
      (ofSources sources files extensions scope).usesOf sources d = tags.filterMap fun tag =>
        (importOf (discover sources files) source.imports tag).bind
          ((ofSources sources files extensions scope).resolveBinding d.file) := by
  rcases Registry.mem_definitionsAt.mp (Registry.mem_discover hd).right with
    ⟨source, declaration, hsource, hdeclaration, _, hname⟩
  have hname : declaration.name = d.name := congrArg Definition.name hname
  refine ⟨source, tagsOf scope source.tags source.declarations d.name, hsource, ?_, ?_⟩
  · rw [← hname]
    exact selects_tagsOf hdeclaration scope
  · unfold usesOf
    rw [hsource]
    apply List.filterMap_congr
    intro tag _
    apply componentOf_bindings
    exact Registry.discover_eq sources files

theorem within_usages (sources : Path -> Option SourceFile) {files : List Path}
    (extensions : List String) (scope : UsageScope) (hdistinct : DistinctPaths files) :
    (usages sources files extensions scope).Within (discover sources files) := by
  intro entry hentry
  have hpairs := pairs_usages sources extensions scope hdistinct
  rcases List.mem_map.mp (hpairs.mem_iff.mp hentry) with ⟨d, hd, rfl⟩
  refine ⟨Registry.registered_of_mem hd, ?_⟩
  intro child hchild
  rcases usesOf_eq sources files extensions scope hd with ⟨source, tags, _, _, huses⟩
  rw [huses] at hchild
  rcases List.mem_filterMap.mp hchild with ⟨tag, _, htag⟩
  rcases Option.bind_eq_some_iff.mp htag with ⟨b, _, hb⟩
  rcases definition_of_resolveBinding hb with ⟨e, he, rfl, _⟩
  exact Registry.registered_of_mem he

/-- The name of the component that a tag means is the name that is imported for it. -/
theorem name_of_importOf (sources : Path -> Option SourceFile) (files : List Path)
    (extensions : List String) (scope : UsageScope) (importer : Path)
    (imports : List ImportBinding) (tag : String) :
    ((importOf (discover sources files) imports tag).bind
        ((ofSources sources files extensions scope).resolveBinding importer)).map
          ComponentId.name =
      (importOf (discover sources files) imports tag).map ImportBinding.lookupName := by
  cases hb : importOf (discover sources files) imports tag with
  | none => rfl
  | some b =>
      have hr := Registry.discover_eq sources files
      have hdefines : (discover sources files).defines b.lookupName = true := by
        have hfound := List.find?_some hb
        exact (Bool.and_eq_true_iff.mp hfound).right
      have hsome := isSome_resolveBinding (r := ofSources sources files extensions scope) hr
        importer b
      rw [show (ofSources sources files extensions scope).registry.defines b.lookupName = true
        from hdefines] at hsome
      rcases Option.isSome_iff_exists.mp hsome with ⟨id, hid⟩
      rcases definition_of_resolveBinding hid with ⟨d, _, rfl, hname⟩
      rw [Option.bind_some, hid]
      exact congrArg some hname

/-!
The entries are those of the registered components, and the names of the children are
those that are imported for the tags, one for each tag with such an import.  The module
of an import does not come into this.
-/

theorem children_follow_tags (sources : Path -> Option SourceFile) (files : List Path)
    (extensions : List String) (scope : UsageScope) (hdistinct : DistinctPaths files) :
    (usages sources files extensions scope).lists.keys.Perm (discover sources files).ids ∧
      (usages sources files extensions scope).Within (discover sources files) ∧
      forall d, d ∈ (discover sources files).definitions ->
        exists source tags, d.file ∈ files ∧ sources d.file = some source ∧
          Selects source d.name scope tags ∧
          ((usages sources files extensions scope).children d.id).map ComponentId.name =
            tags.filterMap (fun tag =>
              (importOf (discover sources files) source.imports tag).map
                ImportBinding.lookupName) ∧
          forall child, child ∈ (usages sources files extensions scope).children d.id ->
            exists b, b ∈ source.imports ∧ b.localName ∈ tags ∧ b.lookupName = child.name := by
  refine ⟨?_, within_usages sources extensions scope hdistinct, ?_⟩
  · have hkeys := (pairs_usages sources extensions scope hdistinct).map Prod.fst
    rw [List.map_map] at hkeys
    exact hkeys
  · intro d hd
    rcases usesOf_eq sources files extensions scope hd with ⟨source, tags, hsource, htags, huses⟩
    have hnames : ((usages sources files extensions scope).children d.id).map ComponentId.name =
        tags.filterMap (fun tag =>
          (importOf (discover sources files) source.imports tag).map
            ImportBinding.lookupName) := by
      rw [children_usages sources extensions scope hdistinct hd, huses, List.map_filterMap]
      apply List.filterMap_congr
      intro tag _
      exact name_of_importOf sources files extensions scope d.file source.imports tag
    refine ⟨source, tags, (Registry.mem_discover hd).left, hsource, htags, hnames, ?_⟩
    intro child hchild
    have hname := List.mem_map_of_mem (f := ComponentId.name) hchild
    rw [hnames] at hname
    rcases List.mem_filterMap.mp hname with ⟨tag, htag, himport⟩
    rcases Option.map_eq_some_iff.mp himport with ⟨b, hb, hlookup⟩
    have hfound := List.find?_some hb
    have hlocal := beq_iff_eq.mp (Bool.and_eq_true_iff.mp hfound).left
    refine ⟨b, List.mem_of_find?_eq_some hb, ?_, hlookup⟩
    rw [hlocal]
    exact htag

/-- A project in which `App` is declared twice and uses two components of one name.  A
component is rendered and not imported, one is imported and not rendered, and one file
cannot be read. -/
def shop : Path -> Option SourceFile
  | ⟨"app.jsx"⟩ => some (SourceFile.ofText ⟨"app.jsx"⟩ .jsx
      ("import \x7b Pay as Buy, Tip \x7d from './ui'; import Pay from 'kit'; " ++
        "const App = () => <Buy/>; const App = () => <Pay><Buy/><Card/></Pay>;"))
  | ⟨"card.jsx"⟩ => some (SourceFile.ofText ⟨"card.jsx"⟩ .jsx "const Card = () => <p/>;")
  | ⟨"tip.jsx"⟩ => some (SourceFile.ofText ⟨"tip.jsx"⟩ .jsx "const Tip = () => <i/>;")
  | ⟨"ui.jsx"⟩ => some (SourceFile.ofText ⟨"ui.jsx"⟩ .jsx "const Pay = () => <b/>;")
  | ⟨"zoo.jsx"⟩ => some (SourceFile.ofText ⟨"zoo.jsx"⟩ .jsx "const Pay = () => <u/>;")
  | _ => none

def shopFiles : List Path :=
  [⟨"app.jsx"⟩, ⟨"broken.jsx"⟩, ⟨"card.jsx"⟩, ⟨"tip.jsx"⟩, ⟨"ui.jsx"⟩, ⟨"zoo.jsx"⟩]

theorem children_follow_tags_shop :
    DistinctPaths shopFiles ∧
      (usages shop shopFiles ["jsx"] .declaration).lists.keys.Perm (discover shop shopFiles).ids ∧
      ((usages shop shopFiles ["jsx"] .declaration).children ⟨⟨"app.jsx"⟩, "App"⟩).map
        (fun child => (child.file.text, child.name)) = [("zoo.jsx", "Pay"), ("ui.jsx", "Pay")] ∧
      exists d source tags, d ∈ (discover shop shopFiles).definitions ∧
        (d.id == ⟨⟨"app.jsx"⟩, "App"⟩) = true ∧ Selects source d.name .declaration tags ∧
        tags.filterMap (fun tag =>
          (importOf (discover shop shopFiles) source.imports tag).map
            ImportBinding.lookupName) = ["Pay", "Pay"] := by
  have hdistinct : DistinctPaths shopFiles := by decide +kernel
  have hshop : (discover shop shopFiles).Registered ⟨⟨"app.jsx"⟩, "App"⟩ ∧
      ((usages shop shopFiles ["jsx"] .declaration).children ⟨⟨"app.jsx"⟩, "App"⟩).map
        (fun child => (child.file.text, child.name)) =
          [("zoo.jsx", "Pay"), ("ui.jsx", "Pay")] := by decide +kernel
  rcases hshop with ⟨happ, hchildren⟩
  rcases children_follow_tags shop shopFiles ["jsx"] .declaration hdistinct with
    ⟨hkeys, _, hlists⟩
  rcases (Registry.registered_iff_mem _).mp happ with
    ⟨d, hd, hsame⟩
  rcases hlists d hd with ⟨source, tags, _, _, htags, himports, _⟩
  have hnames := congrArg (List.map Prod.snd) hchildren
  rw [List.map_map] at hnames
  rw [Adjacency.children_congr _ hsame] at himports
  exact ⟨hdistinct, hkeys, hchildren, d, source, tags, hd, hsame, htags,
    himports.symm.trans hnames⟩

end Resolver
end JsxUsage
