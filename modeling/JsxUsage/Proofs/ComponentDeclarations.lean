import JsxUsage.Proofs.UsageResolution

/-!
# The declaration behind a component

A file can declare a name several times.  The registry keeps the last declaration of a name
that is a component, while the tags of a component are taken from the last declaration of
its name, whatever this declaration is.  This module proves which of the declarations each
of the two looks at, and that they look at the same one exactly where the last declaration
of the name is a component.
-/

namespace JsxUsage

/-!
# Last declarations
-/

namespace Declaration

/-- The declaration at a position satisfies `p`, and no later one does. -/
structure IsLast (p : Declaration -> Bool) (ds : List Declaration) (position : Nat)
    (d : Declaration) : Prop where
  here : ds[position]? = some d
  holds : p d = true
  later : forall i e, position < i -> ds[i]? = some e -> p e = false

theorem isLast_of_find? {p : Declaration -> Bool} {ds : List Declaration} {d : Declaration}
    (h : ds.reverse.find? p = some d) : exists position, IsLast p ds position d := by
  rcases List.find?_eq_some_iff_append.mp h with ⟨hholds, back, front, hsplit, hback⟩
  have hds : ds = front.reverse ++ d :: back.reverse := by
    rw [← List.reverse_reverse ds, hsplit]
    simp
  refine ⟨front.length, ?_, hholds, ?_⟩
  · simp [hds]
  · intro i e hi he
    have hmem : e ∈ back.reverse := by
      rw [hds, List.getElem?_append_right (by simpa using Nat.le_of_lt hi),
        List.length_reverse] at he
      rcases Nat.exists_eq_add_of_lt hi with ⟨k, rfl⟩
      have hindex : front.length + k + 1 - front.length = k + 1 := by omega
      rw [hindex, List.getElem?_cons_succ] at he
      exact List.mem_of_getElem? he
    simpa using hback e (List.mem_reverse.mp hmem)

theorem isLast_unique {p : Declaration -> Bool} {ds : List Declaration} {i j : Nat}
    {d e : Declaration} (hd : IsLast p ds i d) (he : IsLast p ds j e) : i = j ∧ d = e := by
  have hij : i = j := by
    rcases Nat.lt_trichotomy i j with hlt | rfl | hgt
    · have hnot := hd.later j e hlt he.here
      rw [he.holds] at hnot
      cases hnot
    · rfl
    · have hnot := he.later i d hgt hd.here
      rw [hd.holds] at hnot
      cases hnot
  subst hij
  exact ⟨rfl, Option.some.inj (hd.here.symm.trans he.here)⟩

theorem find?_of_isLast {p : Declaration -> Bool} {ds : List Declaration} {position : Nat}
    {d : Declaration} (h : IsLast p ds position d) : ds.reverse.find? p = some d := by
  have hsome : (ds.reverse.find? p).isSome = true := by
    rw [List.find?_isSome]
    exact ⟨d, List.mem_reverse.mpr (List.mem_of_getElem? h.here), h.holds⟩
  rcases Option.isSome_iff_exists.mp hsome with ⟨e, he⟩
  rcases isLast_of_find? he with ⟨other, hother⟩
  rw [he, (isLast_unique hother h).right]

/-- A declaration of the name. -/
def isNamed (name : String) (d : Declaration) : Bool := d.name == name

/-- A component of the name. -/
def isComponentNamed (name : String) (d : Declaration) : Bool := d.isComponent && d.name == name

/-- Two searches from the back of a file, one for a name and one for a component of the
name, end at the same place if and only if the first one finds a component. -/
theorem isLast_agree_iff {name : String} {ds : List Declaration} {i j : Nat} {d e : Declaration}
    (hd : IsLast (isNamed name) ds i d) (he : IsLast (isComponentNamed name) ds j e) :
    i = j <-> d.isComponent = true := by
  constructor
  · intro hij
    subst hij
    cases Option.some.inj (hd.here.symm.trans he.here)
    exact (Bool.and_eq_true_iff.mp he.holds).left
  · intro hcomponent
    have hlast : IsLast (isComponentNamed name) ds i d := by
      constructor
      · exact hd.here
      · exact Bool.and_eq_true_iff.mpr ⟨hcomponent, hd.holds⟩
      · intro k x hk hx
        have hother : (x.name == name) = false := hd.later k x hk hx
        rw [isComponentNamed, hother, Bool.and_false]
    exact (isLast_unique hlast he).left

end Declaration

open Declaration (IsLast isNamed isComponentNamed)

/-!
# The registered declaration
-/

namespace Registry

/-- A component is found in the definitions of its own file. -/
theorem find?_definitionsAt {sources : Path -> Option SourceFile} {files : List Path}
    {id : ComponentId} {d : Definition}
    (h : (files.flatMap (definitionsAt sources)).reverse.find? (fun e => e.id == id) = some d) :
    (definitionsAt sources d.file).reverse.find? (fun e => e.id == id) = some d := by
  induction files using List.reverseRecOn with
  | nil => cases h
  | append_singleton files path ih =>
      rw [List.flatMap_append, List.flatMap_singleton, List.reverse_append, List.find?_append] at h
      cases hlast : (definitionsAt sources path).reverse.find? fun e => e.id == id with
      | none =>
          rw [hlast, Option.none_or] at h
          exact ih h
      | some e =>
          rw [hlast, Option.some_or] at h
          cases h
          have hmem := List.mem_reverse.mp (List.mem_of_find?_eq_some hlast)
          rw [file_of_mem_definitionsAt hmem]
          exact hlast

theorem id_ofDeclaration_beq (path : Path) (name : String) (e : Declaration) :
    ((Definition.ofDeclaration path e).id == ⟨path, name⟩) = (e.name == name) := by
  rw [Bool.eq_iff_iff, ComponentId.beq_iff_key, beq_iff_eq]
  exact Prod.mk_right_inj

/-- A search for the definitions of a name in a file is one for its components of the name. -/
theorem find?_definitionsIn {path : Path} {name : String} {p : Definition -> Bool}
    (hp : forall e, p (Definition.ofDeclaration path e) = (e.name == name)) (source : SourceFile) :
    (definitionsIn path source).reverse.find? p =
      (source.declarations.reverse.find? (isComponentNamed name)).map
        (Definition.ofDeclaration path) := by
  rw [definitionsIn, ← List.map_reverse, ← List.filter_reverse, List.find?_map, List.find?_filter]
  congr 2
  funext e
  rw [Bool.eq_iff_iff]
  simp [isComponentNamed, hp]

/-- A component is registered from the last declaration of its name that is a component. -/
theorem registered_declaration {sources : Path -> Option SourceFile} {files : List Path}
    {d : Definition} (hd : d ∈ (discover sources files).definitions) :
    exists source position own, sources d.file = some source ∧
      IsLast (isComponentNamed d.name) source.declarations position own ∧
      Definition.ofDeclaration d.file own = d := by
  have hget := get?_of_mem hd
  rw [discover_eq, get?_ofDefinitions] at hget
  have hfile := find?_definitionsAt hget
  rw [definitionsAt] at hfile
  cases hsource : sources d.file with
  | none =>
      rw [hsource] at hfile
      cases hfile
  | some source =>
      rw [hsource] at hfile
      have hfound := (find?_definitionsIn (id_ofDeclaration_beq d.file d.name) source).symm.trans hfile
      rcases Option.map_eq_some_iff.mp hfound with ⟨own, hown, hdefinition⟩
      rcases Declaration.isLast_of_find? hown with ⟨position, hlast⟩
      exact ⟨source, position, own, rfl, hlast, hdefinition⟩

end Registry

/-!
# The declaration whose tags count
-/

namespace Resolver

open Registry (discover DistinctPaths)

theorem tagsOf_declaration {ds : List Declaration} {name : String} {d : Declaration}
    (h : ds.reverse.find? (isNamed name) = some d) (fileTags : List String) :
    tagsOf .declaration fileTags ds name = d.tags := by
  have hfound : ds.reverse.find? (fun d => d.name == name) = some d := h
  simp only [tagsOf, hfound]

/-- The tags of a component are those of the last declaration of its name. -/
theorem consulted_declaration {ds : List Declaration} {name : String} {own : Declaration}
    {position : Nat} (hown : IsLast (isComponentNamed name) ds position own)
    (fileTags : List String) :
    exists consulted seen, IsLast (isNamed name) ds consulted seen ∧
      tagsOf .declaration fileTags ds name = seen.tags := by
  have hsome : (ds.reverse.find? (isNamed name)).isSome = true := by
    rw [List.find?_isSome]
    exact ⟨own, List.mem_reverse.mpr (List.mem_of_getElem? hown.here),
      (Bool.and_eq_true_iff.mp hown.holds).right⟩
  rcases Option.isSome_iff_exists.mp hsome with ⟨seen, hseen⟩
  rcases Declaration.isLast_of_find? hseen with ⟨consulted, hlast⟩
  exact ⟨consulted, seen, hlast, tagsOf_declaration hseen fileTags⟩

/-- A component is registered from one declaration and takes its tags from another one, or
from the same one if and only if the last declaration of its name is a component. -/
theorem tags_come_from_registered_iff (sources : Path -> Option SourceFile) (files : List Path)
    (extensions : List String) (hdistinct : DistinctPaths files) {d : Definition}
    (hd : d ∈ (discover sources files).definitions) :
    exists source registered own consulted seen, sources d.file = some source ∧
      IsLast (isComponentNamed d.name) source.declarations registered own ∧
      Definition.ofDeclaration d.file own = d ∧
      IsLast (isNamed d.name) source.declarations consulted seen ∧
      (usages sources files extensions .declaration).children d.id =
        seen.tags.filterMap (fun tag =>
          (importOf (discover sources files) source.imports tag).bind
            ((ofSources sources files extensions .declaration).resolveBinding d.file)) ∧
      (consulted = registered <-> seen.isComponent = true) ∧
      (seen.isComponent = true -> seen = own) := by
  rcases Registry.registered_declaration hd with ⟨source, registered, own, hsource, hown, hdef⟩
  rcases consulted_declaration hown source.tags with ⟨consulted, seen, hseen, htags⟩
  have hagree := Declaration.isLast_agree_iff hseen hown
  refine ⟨source, registered, own, consulted, seen, hsource, hown, hdef, hseen, ?_, hagree, ?_⟩
  · rw [children_usages sources extensions .declaration hdistinct hd, usesOf, hsource]
    show (tagsOf .declaration source.tags source.declarations d.name).filterMap _ = _
    rw [htags]
    apply List.filterMap_congr
    intro tag _
    apply componentOf_bindings
    exact Registry.discover_eq sources files
  · intro hcomponent
    have hplace := hagree.mpr hcomponent
    subst hplace
    exact Option.some.inj (hseen.here.symm.trans hown.here)

theorem tags_come_from_registered_iff_shop :
    DistinctPaths shopFiles ∧
      exists d source registered own consulted seen,
        d ∈ (discover shop shopFiles).definitions ∧ (d.id == ⟨⟨"app.jsx"⟩, "App"⟩) = true ∧
        shop d.file = some source ∧
        IsLast (isComponentNamed d.name) source.declarations registered own ∧
        IsLast (isNamed d.name) source.declarations consulted seen ∧
        (consulted = registered <-> seen.isComponent = true) := by
  have hdistinct : DistinctPaths shopFiles := by decide +kernel
  have happ : (discover shop shopFiles).Registered ⟨⟨"app.jsx"⟩, "App"⟩ := by decide +kernel
  rcases (Registry.registered_iff_mem _).mp happ with
    ⟨d, hd, hsame⟩
  rcases tags_come_from_registered_iff shop shopFiles ["jsx"] hdistinct hd with
    ⟨source, registered, own, consulted, seen, hsource, hown, _, hseen, _, hagree, _⟩
  exact ⟨hdistinct, d, source, registered, own, consulted, seen, hd, hsame, hsource, hown, hseen,
    hagree⟩

/-- A file that declares a component and then the same name again, without any element. -/
def redeclared : SourceFile :=
  SourceFile.ofText ⟨"app.jsx"⟩ .jsx
    "import Card from './card';\nvar App = () => <Card/>;\nvar App = () => null;\n"

def redeclaredSources : Path -> Option SourceFile
  | ⟨"app.jsx"⟩ => some redeclared
  | ⟨"card.jsx"⟩ => some (SourceFile.ofText ⟨"card.jsx"⟩ .jsx "const Card = () => <p/>;")
  | _ => none

/-- The component is registered from the declaration that builds the card, and has no
children, because the tags are looked for in the other declaration. -/
theorem redeclared_component_loses_tags :
    redeclared.declarations.map (fun d => (d.name, d.kind, d.line, d.isComponent, d.tags)) =
        [("App", .arrowFunction, 2, true, ["Card"]), ("App", .arrowFunction, 3, false, [])] ∧
      ((discover redeclaredSources [⟨"app.jsx"⟩, ⟨"card.jsx"⟩]).get? ⟨⟨"app.jsx"⟩, "App"⟩).map
        (fun d => (d.name, d.kind, d.line)) = some ("App", .arrowFunction, 2) ∧
      tagsOf .declaration redeclared.tags redeclared.declarations "App" = [] ∧
      ((usages redeclaredSources [⟨"app.jsx"⟩, ⟨"card.jsx"⟩] ["jsx"] .declaration).children
        ⟨⟨"app.jsx"⟩, "App"⟩).map ComponentId.name = [] ∧
      ((usages redeclaredSources [⟨"app.jsx"⟩, ⟨"card.jsx"⟩] ["jsx"] .file).children
        ⟨⟨"app.jsx"⟩, "App"⟩).map ComponentId.name = ["Card"] := by
  decide +kernel

end Resolver
end JsxUsage
