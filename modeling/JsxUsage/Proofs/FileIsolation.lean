import JsxUsage.Proofs.TreeExpansion
import JsxUsage.Proofs.UsageResolution

/-!
# Adding a file

A file that is added to a project can take the name of a component over, and an import can
then mean a component of the new file.  This module proves that nothing else happens: as
long as no file of the project imports a name that the new file defines, all components
keep their definitions, their children and the trees below them, wherever the new file
comes in the order of the files.
-/

namespace JsxUsage

/-!
# The registry

A search from the back does not see a part of the list in which nothing is found.
-/

namespace Registry

theorem find?_reverse_insert {α : Type} {p : α -> Bool} (front back : List α) {middle : List α}
    (h : forall x, x ∈ middle -> p x = false) :
    (front ++ (middle ++ back)).reverse.find? p = (front ++ back).reverse.find? p := by
  have hmiddle : middle.reverse.find? p = none := by
    rw [List.find?_eq_none]
    intro x hx
    rw [h x (List.mem_reverse.mp hx)]
    exact Bool.false_ne_true
  rw [List.reverse_append, List.reverse_append, List.reverse_append, List.find?_append,
    List.find?_append, List.find?_append, hmiddle, Option.or_none]

/-- The file at a path defines no component of the name. -/
def Lacks (sources : Path -> Option SourceFile) (path : Path) (name : String) : Prop :=
  forall d, d ∈ definitionsAt sources path -> d.name ≠ name

instance (sources : Path -> Option SourceFile) (path : Path) (name : String) :
    Decidable (Lacks sources path name) :=
  inferInstanceAs (Decidable (forall d, d ∈ definitionsAt sources path -> d.name ≠ name))

theorem definitionsAt_eq_nil {sources : Path -> Option SourceFile} {path : Path}
    (h : sources path = none ∨ forall source, sources path = some source ->
      forall d, d ∈ source.declarations -> d.isComponent = false) :
    definitionsAt sources path = [] := by
  rw [List.eq_nil_iff_forall_not_mem]
  intro d hd
  rcases mem_definitionsAt.mp hd with ⟨source, declaration, hsource, hmem, hcomponent, _⟩
  rcases h with hnone | hplain
  · rw [hnone] at hsource
    cases hsource
  · rw [hplain source hsource declaration hmem] at hcomponent
    cases hcomponent

section Insertion

variable (sources : Path -> Option SourceFile) (before after : List Path) (added : Path)

theorem discover_insert :
    discover sources (before ++ added :: after) =
      ofDefinitions (before.flatMap (definitionsAt sources) ++
        (definitionsAt sources added ++ after.flatMap (definitionsAt sources))) := by
  rw [discover_eq, List.flatMap_append, List.flatMap_cons]

theorem discover_append :
    discover sources (before ++ after) =
      ofDefinitions (before.flatMap (definitionsAt sources) ++
        after.flatMap (definitionsAt sources)) := by
  rw [discover_eq, List.flatMap_append]

theorem get?_discover_insert {id : ComponentId}
    (h : forall d, d ∈ definitionsAt sources added -> (d.id == id) = false) :
    (discover sources (before ++ added :: after)).get? id =
      (discover sources (before ++ after)).get? id := by
  rw [discover_insert, discover_append, get?_ofDefinitions, get?_ofDefinitions]
  exact find?_reverse_insert _ _ h

theorem lookup_discover_insert {name : String} (h : Lacks sources added name) :
    (discover sources (before ++ added :: after)).lookup name =
      (discover sources (before ++ after)).lookup name := by
  rw [discover_insert, discover_append, lookup_ofDefinitions, lookup_ofDefinitions]
  apply find?_reverse_insert
  intro d hd
  exact beq_eq_false_iff_ne.mpr (h d hd)

theorem get?_discover_insert_of_lacks {path : Path} {name : String}
    (h : Lacks sources added name) :
    (discover sources (before ++ added :: after)).get? ⟨path, name⟩ =
      (discover sources (before ++ after)).get? ⟨path, name⟩ := by
  apply get?_discover_insert
  intro d hd
  rw [Bool.eq_false_iff]
  intro hsame
  exact h d hd (ComponentId.name_eq_of_beq hsame)

end Insertion

/-- A component is in a file of the list. -/
theorem file_of_get?_discover {sources : Path -> Option SourceFile} {files : List Path}
    {id : ComponentId} {d : Definition} (h : (discover sources files).get? id = some d) :
    d.file ∈ files ∧ (d.file == id.file) = true := by
  rcases mem_of_get? h with ⟨hd, hsame⟩
  exact ⟨(mem_discover hd).left, ComponentId.file_beq_of_beq hsame⟩

theorem away_of_distinctPaths {before after : List Path} {added path : Path}
    (h : DistinctPaths (before ++ added :: after)) (hpath : path ∈ before ++ after) :
    (added == path) = false := by
  rcases List.pairwise_append.mp h with ⟨_, hafter, hacross⟩
  rcases List.mem_append.mp hpath with hbefore | hlater
  · rw [BEq.comm]
    exact hacross path hbefore added List.mem_cons_self
  · exact (List.pairwise_cons.mp hafter).left path hlater

theorem distinctPaths_remove {before after : List Path} {added : Path}
    (h : DistinctPaths (before ++ added :: after)) : DistinctPaths (before ++ after) :=
  h.sublist ((List.Sublist.refl before).append (List.sublist_cons_self added after))

/-- A component that was registered before keeps its definition. -/
theorem get?_discover_insert_of_registered {sources : Path -> Option SourceFile}
    {before after : List Path} {added : Path}
    (hdistinct : DistinctPaths (before ++ added :: after)) {id : ComponentId}
    (h : (discover sources (before ++ after)).Registered id) :
    (discover sources (before ++ added :: after)).get? id =
      (discover sources (before ++ after)).get? id := by
  rcases Option.isSome_iff_exists.mp h with ⟨d, hd⟩
  rcases file_of_get?_discover hd with ⟨hfile, hsame⟩
  apply get?_discover_insert
  intro e he
  rw [Bool.eq_false_iff]
  intro heq
  have hadded : (e.file == id.file) = true := ComponentId.file_beq_of_beq heq
  rw [file_of_mem_definitionsAt he] at hadded
  have haway := away_of_distinctPaths hdistinct hfile
  rw [BEq.trans hadded (BEq.symm hsame)] at haway
  cases haway

end Registry

/-!
# What a component uses
-/

namespace Resolver

open Registry (discover DistinctPaths definitionsAt Lacks)

/-- What the file at a path imports. -/
def importsAt (sources : Path -> Option SourceFile) (path : Path) : List ImportBinding :=
  match sources path with
  | none => []
  | some source => source.imports

/-- No file of the list imports a name that the file at `added` defines. -/
def Unimported (sources : Path -> Option SourceFile) (files : List Path) (added : Path) : Prop :=
  forall path, path ∈ files -> forall b, b ∈ importsAt sources path ->
    Lacks sources added b.lookupName

instance (sources : Path -> Option SourceFile) (files : List Path) (added : Path) :
    Decidable (Unimported sources files added) :=
  inferInstanceAs (Decidable (forall path, path ∈ files -> forall b,
    b ∈ importsAt sources path -> Lacks sources added b.lookupName))

/-- That a path is in the catalog need not be tested, because no other file defines
anything. -/
theorem definedAt_ofSources (sources : Path -> Option SourceFile) (files : List Path)
    (extensions : List String) (scope : UsageScope) (name : String) (path : Path) :
    (ofSources sources files extensions scope).definedAt name path =
      ((discover sources files).get? ⟨path, name⟩).map Definition.id := by
  unfold definedAt
  by_cases hpath : (ofSources sources files extensions scope).files.any (· == path) = true
  · rw [if_pos hpath]
    rfl
  · rw [if_neg hpath]
    cases hget : (discover sources files).get? ⟨path, name⟩ with
    | none => rfl
    | some d =>
        rcases Registry.file_of_get?_discover hget with ⟨hfile, hsame⟩
        exact absurd (List.any_eq_true.mpr ⟨d.file, hfile, hsame⟩) hpath

section Insertion

variable (sources : Path -> Option SourceFile) (before after : List Path) (added : Path)
  (extensions : List String) (scope : UsageScope)

theorem resolveBinding_insert (importer : Path) {b : ImportBinding}
    (h : Lacks sources added b.lookupName) :
    (ofSources sources (before ++ added :: after) extensions scope).resolveBinding importer b =
      (ofSources sources (before ++ after) extensions scope).resolveBinding importer b := by
  have hdefined : (ofSources sources (before ++ added :: after) extensions scope).definedAt
      b.lookupName =
        (ofSources sources (before ++ after) extensions scope).definedAt b.lookupName := by
    funext path
    rw [definedAt_ofSources, definedAt_ofSources,
      Registry.get?_discover_insert_of_lacks sources before after added h]
  have himported :
      (ofSources sources (before ++ added :: after) extensions scope).imported importer b =
        (ofSources sources (before ++ after) extensions scope).imported importer b := by
    unfold imported
    rw [hdefined]
    rfl
  have hlookup :
      (ofSources sources (before ++ added :: after) extensions scope).registry.lookup
        b.lookupName =
      (ofSources sources (before ++ after) extensions scope).registry.lookup b.lookupName :=
    Registry.lookup_discover_insert sources before after added h
  unfold resolveBinding
  rw [himported, hlookup]

theorem usesOf_insert {d : Definition} (hd : d.file ∈ before ++ after)
    (h : Unimported sources (before ++ after) added) :
    (ofSources sources (before ++ added :: after) extensions scope).usesOf sources d =
      (ofSources sources (before ++ after) extensions scope).usesOf sources d := by
  unfold usesOf
  cases hsource : sources d.file with
  | none => rfl
  | some source =>
      have hbindings :
          (ofSources sources (before ++ added :: after) extensions scope).bindings d.file
            source.imports =
          (ofSources sources (before ++ after) extensions scope).bindings d.file
            source.imports := by
        apply List.filterMap_congr
        intro b hb
        have himport : b ∈ importsAt sources d.file := by
          unfold importsAt
          rw [hsource]
          exact hb
        rw [resolveBinding_insert sources before after added extensions scope d.file
          (h d.file hd b himport)]
      simp only [hbindings]
      rfl

variable {before after added} (hdistinct : DistinctPaths (before ++ added :: after))
include hdistinct

theorem children_usages_insert (h : Unimported sources (before ++ after) added)
    {id : ComponentId} (hid : (discover sources (before ++ after)).Registered id) :
    (usages sources (before ++ added :: after) extensions scope).children id =
      (usages sources (before ++ after) extensions scope).children id := by
  rcases Option.isSome_iff_exists.mp hid with ⟨d, hd⟩
  have hd' := (Registry.get?_discover_insert_of_registered hdistinct hid).trans hd
  rcases Registry.mem_of_get? hd with ⟨hmem, hsame⟩
  rcases Registry.mem_of_get? hd' with ⟨hmem', _⟩
  rw [← Adjacency.children_congr _ hsame, ← Adjacency.children_congr _ hsame,
    children_usages sources extensions scope hdistinct hmem',
    children_usages sources extensions scope (Registry.distinctPaths_remove hdistinct) hmem,
    usesOf_insert sources before after added extensions scope (Registry.mem_discover hmem).left h]

/-- A file without components leaves the registry and the usages as they are. -/
theorem usages_insert_of_empty (h : definitionsAt sources added = []) :
    discover sources (before ++ added :: after) = discover sources (before ++ after) ∧
      usages sources (before ++ added :: after) extensions scope =
        usages sources (before ++ after) extensions scope := by
  have hdiscover :
      discover sources (before ++ added :: after) = discover sources (before ++ after) := by
    rw [Registry.discover_insert, Registry.discover_append, h, List.nil_append]
  have hfree : Unimported sources (before ++ after) added := by
    intro path _ b _ d hd
    rw [h] at hd
    cases hd
  refine ⟨hdiscover, ?_⟩
  unfold usages
  rw [resolve_eq _ _ (Registry.spelledOnce_discover sources hdistinct),
    resolve_eq _ _
      (Registry.spelledOnce_discover sources (Registry.distinctPaths_remove hdistinct))]
  show Adjacency.ofLists
      (((discover sources (before ++ added :: after)).byFile.flatMap Prod.snd).map _) =
    Adjacency.ofLists (((discover sources (before ++ after)).byFile.flatMap Prod.snd).map _)
  rw [hdiscover]
  -- The definitions are the same, but the catalogs of the two resolvers differ.
  congr 1
  apply List.map_congr_left
  intro d hd
  have hmem := (Registry.byFile_perm (discover sources (before ++ after))).mem_iff.mp hd
  rw [usesOf_insert sources before after added extensions scope
    (Registry.mem_discover hmem).left hfree]

end Insertion
end Resolver

/-!
# Trees

Two adjacencies that agree on a set of components, which no use leads out of, give the
same trees below the components of the set.
-/

namespace ComponentTree

theorem expand_of_expands {a : Adjacency} {maxDepth : Nat} {way : List ComponentId}
    {parent : Option Nat} {depth : Nat} {children : List ComponentId} {t u : ComponentTree}
    (h : Expands a maxDepth way parent depth children t u) :
    expand a maxDepth way parent depth children t = u := by
  induction h with
  | done => rw [expand]
  | cyclic hon _ ih =>
      rw [expand, dif_pos hon]
      exact ih
  | leaf hoff hleaf _ ih =>
      rw [expand, dif_neg (Bool.eq_false_iff.mp hoff)]
      simp only [hleaf, dif_pos]
      exact ih
  | limited hoff hinner hlimit _ ih =>
      rw [expand, dif_neg (Bool.eq_false_iff.mp hoff)]
      simp only [hinner, Bool.false_eq_true, dif_neg, not_false_eq_true, if_pos hlimit]
      exact ih
  | inner hoff hinner hdeeper _ _ ihBelow ihRest =>
      rw [expand, dif_neg (Bool.eq_false_iff.mp hoff)]
      simp only [hinner, Bool.false_eq_true, dif_neg, not_false_eq_true,
        if_neg (Nat.not_le.mpr hdeeper)]
      exact (congrArg (expand a maxDepth _ _ _ _) ihBelow).trans ihRest

section Agreement

variable {a b : Adjacency} {within : ComponentId -> Prop}
  (hclosed : forall c d, within c -> d ∈ a.children c -> within d)
  (hagree : forall c, within c -> b.children c = a.children c)
include hclosed hagree

theorem expands_congr {maxDepth : Nat} {way : List ComponentId} {parent : Option Nat}
    {depth : Nat} {children : List ComponentId} {t u : ComponentTree}
    (h : Expands a maxDepth way parent depth children t u)
    (hchildren : forall c, c ∈ children -> within c) :
    Expands b maxDepth way parent depth children t u := by
  induction h with
  | done => exact Expands.done
  | cyclic hon _ ih =>
      exact Expands.cyclic hon (ih fun c hc => hchildren c (List.mem_cons_of_mem _ hc))
  | leaf hoff hleaf _ ih =>
      have hhere := hagree _ (hchildren _ List.mem_cons_self)
      exact Expands.leaf hoff (by rw [hhere, hleaf])
        (ih fun c hc => hchildren c (List.mem_cons_of_mem _ hc))
  | limited hoff hinner hlimit _ ih =>
      have hhere := hagree _ (hchildren _ List.mem_cons_self)
      exact Expands.limited hoff (by rw [hhere, hinner]) hlimit
        (ih fun c hc => hchildren c (List.mem_cons_of_mem _ hc))
  | inner hoff hinner hdeeper _ _ ihBelow ihRest =>
      -- The children of the child are in the set, because no use leads out of it.
      have hwithin := hchildren _ List.mem_cons_self
      have hbelow := ihBelow fun c hc => hclosed _ c hwithin hc
      rw [← hagree _ hwithin] at hbelow
      exact Expands.inner hoff (by rw [hagree _ hwithin, hinner]) hdeeper hbelow
        (ihRest fun c hc => hchildren c (List.mem_cons_of_mem _ hc))

theorem buildFrom_congr (maxDepth : Nat) {root : ComponentId} (hroot : within root) :
    buildFrom b maxDepth root = buildFrom a maxDepth root := by
  rw [buildFrom_eq_expand, buildFrom_eq_expand, hagree root hroot]
  apply expand_of_expands
  apply expands_congr hclosed hagree (expands_expand a _ _ _ _ _ _)
  intro c hc
  exact hclosed root c hroot hc

end Agreement

open Registry (discover DistinctPaths definitionsAt Lacks)
open Resolver (usages Unimported shop)

theorem build_insert (sources : Path -> Option SourceFile) {before after : List Path}
    {added : Path} (extensions : List String) (scope : UsageScope)
    (hdistinct : DistinctPaths (before ++ added :: after))
    (hfree : Unimported sources (before ++ after) added) (maxDepth : Nat) {rootName : String}
    (hroot : Lacks sources added rootName) :
    build (discover sources (before ++ added :: after))
        (usages sources (before ++ added :: after) extensions scope) maxDepth rootName =
      build (discover sources (before ++ after))
        (usages sources (before ++ after) extensions scope) maxDepth rootName := by
  have hfewer := Registry.distinctPaths_remove hdistinct
  unfold build
  rw [Registry.lookup_discover_insert sources before after added hroot]
  cases hlookup : (discover sources (before ++ after)).lookup rootName with
  | none => rfl
  | some d =>
      have hmem := (Registry.mem_of_lookup hlookup).left
      have hregistered : (discover sources (before ++ after)).Registered d.id :=
        Registry.registered_of_mem hmem
      have hregistered' : (discover sources (before ++ added :: after)).Registered d.id := by
        unfold Registry.Registered
        rw [Registry.get?_discover_insert_of_registered hdistinct hregistered]
        exact hregistered
      have htree : buildFrom (usages sources (before ++ added :: after) extensions scope)
          maxDepth d.id =
            buildFrom (usages sources (before ++ after) extensions scope) maxDepth d.id := by
        apply buildFrom_congr _ _ maxDepth hregistered
        · intro c child _ hchild
          rcases Adjacency.mem_children_iff.mp hchild with ⟨key, list, hentry, _, hlist⟩
          exact (Resolver.within_usages sources extensions scope hfewer _ hentry).right child hlist
        · intro c hc
          exact Resolver.children_usages_insert sources extensions scope hdistinct hfree hc
      show (if (usages sources (before ++ added :: after) extensions scope).contains d.id then _
        else _) = if (usages sources (before ++ after) extensions scope).contains d.id then _
        else _
      rw [if_pos ((Resolver.contains_usages sources extensions scope hdistinct d.id).mpr
          hregistered'),
        if_pos ((Resolver.contains_usages sources extensions scope hfewer d.id).mpr hregistered),
        htree]

/-!
What is left is the sum of the parts.  The new file may stand anywhere in the order, and
its path may be one that an import was resolved to in vain before.
-/

theorem file_addition_disturbs_nothing (sources : Path -> Option SourceFile)
    (before after : List Path) (added : Path) (extensions : List String) (scope : UsageScope)
    (hdistinct : DistinctPaths (before ++ added :: after))
    (hfree : Unimported sources (before ++ after) added) :
    (forall id, (discover sources (before ++ after)).Registered id ->
      (discover sources (before ++ added :: after)).get? id =
          (discover sources (before ++ after)).get? id ∧
        (usages sources (before ++ added :: after) extensions scope).children id =
          (usages sources (before ++ after) extensions scope).children id) ∧
      (forall name, Lacks sources added name ->
        (discover sources (before ++ added :: after)).lookup name =
          (discover sources (before ++ after)).lookup name) ∧
      (forall maxDepth rootName, Lacks sources added rootName ->
        build (discover sources (before ++ added :: after))
            (usages sources (before ++ added :: after) extensions scope) maxDepth rootName =
          build (discover sources (before ++ after))
            (usages sources (before ++ after) extensions scope) maxDepth rootName) ∧
      (sources added = none ∨ (forall source, sources added = some source ->
          forall d, d ∈ source.declarations -> d.isComponent = false) ->
        discover sources (before ++ added :: after) = discover sources (before ++ after) ∧
          usages sources (before ++ added :: after) extensions scope =
            usages sources (before ++ after) extensions scope) := by
  refine ⟨?_, ?_, ?_, ?_⟩
  · intro id hid
    exact ⟨Registry.get?_discover_insert_of_registered hdistinct hid,
      Resolver.children_usages_insert sources extensions scope hdistinct hfree hid⟩
  · intro name hname
    exact Registry.lookup_discover_insert sources before after added hname
  · intro maxDepth rootName hroot
    exact build_insert sources extensions scope hdistinct hfree maxDepth hroot
  · intro hnone
    apply Resolver.usages_insert_of_empty sources extensions scope hdistinct
    exact Registry.definitionsAt_eq_nil hnone

def shopBefore : List Path := [⟨"app.jsx"⟩, ⟨"broken.jsx"⟩]

def shopAfter : List Path := [⟨"ui.jsx"⟩, ⟨"zoo.jsx"⟩]

theorem file_addition_disturbs_nothing_shop :
    DistinctPaths (shopBefore ++ ⟨"card.jsx"⟩ :: shopAfter) ∧
      Unimported shop (shopBefore ++ shopAfter) ⟨"card.jsx"⟩ ∧
      ¬ Lacks shop ⟨"card.jsx"⟩ "Card" ∧ Lacks shop ⟨"card.jsx"⟩ "App" ∧
      forall maxDepth,
        build (discover shop (shopBefore ++ ⟨"card.jsx"⟩ :: shopAfter))
            (usages shop (shopBefore ++ ⟨"card.jsx"⟩ :: shopAfter) ["jsx"] .file) maxDepth "App" =
          build (discover shop (shopBefore ++ shopAfter))
            (usages shop (shopBefore ++ shopAfter) ["jsx"] .file) maxDepth "App" := by
  have hdistinct : DistinctPaths (shopBefore ++ ⟨"card.jsx"⟩ :: shopAfter) := by decide +kernel
  have hfree : Unimported shop (shopBefore ++ shopAfter) ⟨"card.jsx"⟩ := by decide +kernel
  have hcard : ¬ Lacks shop ⟨"card.jsx"⟩ "Card" := by decide +kernel
  have happ : Lacks shop ⟨"card.jsx"⟩ "App" := by decide +kernel
  have hsame := file_addition_disturbs_nothing shop shopBefore shopAfter ⟨"card.jsx"⟩ ["jsx"]
    .file hdistinct hfree
  refine ⟨hdistinct, hfree, hcard, happ, ?_⟩
  intro maxDepth
  exact hsame.right.right.left maxDepth "App" happ

end ComponentTree
end JsxUsage
