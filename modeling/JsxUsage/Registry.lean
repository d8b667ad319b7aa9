import JsxUsage.Component
import JsxUsage.Index

/-!
# The registry of components

The registry holds the definitions of a project in the order in which their
components were first registered.  Two indices point into it: one by component,
and one by name alone.  Where several files define one name, the definition that
was registered last owns the name.
-/

namespace JsxUsage

/-!
## What the indices know of the definitions
-/

namespace Registry

def LeadsToNames (byName : Index String Nat) (definitions : List Definition) : Prop :=
  forall name position, byName.get? name = some position ->
    exists d, definitions[position]? = some d ∧ d.name = name

theorem findIdx?_eq_of_keys {ds es : List Definition}
    (h : ds.map (·.id.key) = es.map (·.id.key)) (id : ComponentId) :
    ds.findIdx? (·.id == id) = es.findIdx? (·.id == id) := by
  have hkeys : forall cs : List Definition,
      cs.findIdx? (·.id == id) = (cs.map (·.id.key)).findIdx? (· == id.key) := by
    intro cs
    rw [List.findIdx?_map]
    rfl
  rw [hkeys, hkeys, h]

theorem keys_set {ds : List Definition} {d : Definition} {position : Nat}
    (h : ds.findIdx? (·.id == d.id) = some position) :
    (ds.set position d).map (·.id.key) = ds.map (·.id.key) := by
  rcases List.findIdx?_eq_some_iff_getElem.mp h with ⟨hlt, hsame, _⟩
  have hmap : position < (ds.map (·.id.key)).length := by simpa using hlt
  have hkey : (ds.map (·.id.key))[position] = d.id.key := by
    rw [List.getElem_map]
    exact ComponentId.beq_iff_key.mp hsame
  rw [List.map_set, ← hkey, List.set_getElem_self]

theorem nodup_append {ds : List Definition} {d : Definition}
    (hdistinct : (ds.map (·.id.key)).Nodup) (hnew : ds.findIdx? (·.id == d.id) = none) :
    ((ds ++ [d]).map (·.id.key)).Nodup := by
  rw [List.map_append, List.nodup_append]
  refine ⟨hdistinct, by simp, ?_⟩
  intro key hkey other hother heq
  rcases List.mem_map.mp hkey with ⟨e, he, hown⟩
  rw [List.map_singleton, List.mem_singleton] at hother
  have hsame : (e.id == d.id) = true := by
    rw [ComponentId.beq_iff_key, hown, heq, hother]
  rw [List.findIdx?_eq_none_iff.mp hnew e he] at hsame
  cases hsame

theorem get?_put_append {ds : List Definition} {d : Definition} {byId : Index ComponentId Nat}
    (hfound : forall id, byId.get? id = ds.findIdx? (·.id == id))
    (hnew : ds.findIdx? (·.id == d.id) = none) (id : ComponentId) :
    (byId.put d.id ds.length).get? id = (ds ++ [d]).findIdx? (·.id == id) := by
  rw [Index.get?_put, List.findIdx?_append, hfound]
  cases hsame : (d.id == id) with
  | true =>
      have hother : ds.findIdx? (·.id == id) = none := by
        rw [← hnew]
        congr 1
        funext e
        exact (BEq.congr_right hsame).symm
      simp [hother, hsame]
  | false => simp [hsame]

theorem leadsToNames_put {byName : Index String Nat} {ds es : List Definition} {d : Definition}
    {position : Nat} (h : LeadsToNames byName ds) (hhere : es[position]? = some d)
    (hkept : forall (other : Nat) (e : Definition), ds[other]? = some e ->
      exists e', es[other]? = some e' ∧ e'.name = e.name) :
    LeadsToNames (byName.put d.name position) es := by
  intro name other hother
  rw [Index.get?_put] at hother
  by_cases hname : (d.name == name) = true
  · rw [if_pos hname] at hother
    cases hother
    exact ⟨d, hhere, eq_of_beq hname⟩
  · rw [if_neg hname] at hother
    rcases h name other hother with ⟨e, he, hown⟩
    rcases hkept other e he with ⟨e', he', hsame⟩
    exact ⟨e', he', hsame.trans hown⟩

theorem leadsToNames_set {byName : Index String Nat} {ds : List Definition} {d : Definition}
    {position : Nat} (h : LeadsToNames byName ds)
    (hposition : ds.findIdx? (·.id == d.id) = some position) :
    LeadsToNames (byName.put d.name position) (ds.set position d) := by
  rcases List.findIdx?_eq_some_iff_getElem.mp hposition with ⟨hlt, hsame, _⟩
  refine leadsToNames_put h (by simp [hlt]) ?_
  intro other e he
  by_cases hother : position = other
  · subst hother
    rw [List.getElem?_eq_getElem hlt] at he
    cases he
    exact ⟨d, by simp [hlt], (ComponentId.name_eq_of_beq hsame).symm⟩
  · exact ⟨e, by rw [List.getElem?_set_ne hother, he], rfl⟩

theorem leadsToNames_append {byName : Index String Nat} {ds : List Definition}
    (h : LeadsToNames byName ds) (d : Definition) :
    LeadsToNames (byName.put d.name ds.length) (ds ++ [d]) := by
  refine leadsToNames_put h (by simp) ?_
  intro other e he
  have hlt := (List.getElem?_eq_some_iff.mp he).1
  exact ⟨e, by rw [List.getElem?_append_left hlt, he], rfl⟩

end Registry

/-!
## Registration
-/

/-- The components of a project.  None is defined twice, and the indices lead to the
definitions of components and of names. -/
structure Registry where
  definitions : List Definition
  byId : Index ComponentId Nat
  byName : Index String Nat
  distinct : (definitions.map (·.id.key)).Nodup
  found : forall id, byId.get? id = definitions.findIdx? (·.id == id)
  named : Registry.LeadsToNames byName definitions
deriving Repr

namespace Registry

def empty : Registry where
  definitions := []
  byId := Index.empty
  byName := Index.empty
  distinct := List.nodup_nil
  found _ := rfl
  named _ _ h := by cases h

instance : Inhabited Registry := ⟨empty⟩

def replace (r : Registry) (d : Definition) (position : Nat)
    (h : r.byId.get? d.id = some position) : Registry where
  definitions := r.definitions.set position d
  byId := r.byId
  byName := r.byName.put d.name position
  distinct := keys_set ((r.found d.id).symm.trans h) ▸ r.distinct
  found id := by
    rw [r.found, findIdx?_eq_of_keys (keys_set ((r.found d.id).symm.trans h))]
  named := leadsToNames_set r.named ((r.found d.id).symm.trans h)

def append (r : Registry) (d : Definition) (h : r.byId.get? d.id = none) : Registry where
  definitions := r.definitions ++ [d]
  byId := r.byId.put d.id r.definitions.length
  byName := r.byName.put d.name r.definitions.length
  distinct := nodup_append r.distinct ((r.found d.id).symm.trans h)
  found := get?_put_append r.found ((r.found d.id).symm.trans h)
  named := leadsToNames_append r.named d

/-- Add a definition, which becomes the owner of its name.  One of the same component is
replaced where it stands. -/
def register (r : Registry) (d : Definition) : Registry :=
  match h : r.byId.get? d.id with
  | some position => r.replace d position h
  | none => r.append d h

theorem register_of_some {r : Registry} {d : Definition} {position : Nat}
    (h : r.byId.get? d.id = some position) : r.register d = r.replace d position h := by
  unfold register
  split
  · next other hother =>
      cases h.symm.trans hother
      rfl
  · next hnone => cases h.symm.trans hnone

theorem register_of_none {r : Registry} {d : Definition} (h : r.byId.get? d.id = none) :
    r.register d = r.append d h := by
  unfold register
  split
  · next other hother => cases h.symm.trans hother
  · rfl

def ofDefinitions (ds : List Definition) : Registry :=
  ds.foldl register empty

def get? (r : Registry) (id : ComponentId) : Option Definition :=
  (r.byId.get? id).bind fun position => r.definitions[position]?

def lookup (r : Registry) (name : String) : Option Definition :=
  (r.byName.get? name).bind fun position => r.definitions[position]?

def definedIn (r : Registry) (file : Path) (name : String) : Option Definition :=
  r.get? ⟨file, name⟩

def containsName (r : Registry) (name : String) : Bool :=
  r.byName.contains name

def isShadowed (r : Registry) (id : ComponentId) : Bool :=
  match r.byId.get? id, r.byName.get? id.name with
  | some own, some owner => own != owner
  | _, _ => false

def sharers (r : Registry) (name : String) : List ComponentId :=
  let ids := (r.definitions.map Definition.id).filter fun id => id.name == name
  match r.lookup name with
  | none => ids
  | some owner => (ids.filter fun id => !(id == owner.id)) ++ [owner.id]

/-- The names that several definitions share, in order, each with the components
that share it. -/
def collisions (r : Registry) : List (String × List ComponentId) :=
  let shared := r.byName.keys.filter fun name =>
    1 < (r.definitions.filter fun d => d.name == name).length
  (shared.mergeSort fun a b => a ≤ b).map fun name => (name, r.sharers name)

/-- Add a definition to the group of its file; a new group comes last. -/
def addToGroup (d : Definition) : List (Path × List Definition) -> List (Path × List Definition)
  | [] => [(d.file, [d])]
  | (file, group) :: rest =>
      if file == d.file then (file, group ++ [d]) :: rest
      else (file, group) :: addToGroup d rest

def groups (ds : List Definition) : List (Path × List Definition) :=
  ds.foldl (fun groups d => addToGroup d groups) []

def byFile (r : Registry) : List (Path × List Definition) := groups r.definitions

def size (r : Registry) : Nat := r.definitions.length

end Registry
end JsxUsage
