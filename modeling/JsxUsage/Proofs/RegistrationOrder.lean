import JsxUsage.Proofs.RegistryLookup

/-!
# Sequences of registrations

What a registry is after any sequence of registrations, told from the sequence alone.  A
component has its place from the first time it is registered and its definition from the
last time; a name belongs to the last definition under it, whether or not that was the first
one of its component; and both indices point to places that hold what they stand for.
-/

namespace JsxUsage
namespace Registry

open Adjacency (RepeatFree)

/-!
# The order of the definitions
-/

/-- The number of registrations before the first one of the component. -/
def firstTime (ds : List Definition) (id : ComponentId) : Nat :=
  (ds.map fun d => d.id.key).idxOf id.key

/-- What the components of a registry are told apart by, in the order of their definitions. -/
def keys (r : Registry) : List (List Part × String) :=
  r.definitions.map fun d => d.id.key

theorem keys_register_of_mem {r : Registry} {d : Definition} (hold : d.id.key ∈ r.keys) :
    (r.register d).keys = r.keys := by
  rcases List.mem_map.mp hold with ⟨e, he, hkey⟩
  have hsome : (r.definitions.findIdx? (·.id == d.id)).isSome = true := by
    rw [List.findIdx?_isSome, List.any_eq_true]
    exact ⟨e, he, ComponentId.beq_iff_key.mpr hkey⟩
  rcases Option.isSome_iff_exists.mp hsome with ⟨position, hposition⟩
  rw [register_of_some ((r.found d.id).trans hposition)]
  exact keys_set hposition

theorem keys_register_of_new {r : Registry} {d : Definition} (hnew : d.id.key ∉ r.keys) :
    (r.register d).keys = r.keys ++ [d.id.key] := by
  have hnone : r.definitions.findIdx? (·.id == d.id) = none := by
    rw [List.findIdx?_eq_none_iff]
    intro e he
    cases hsame : (e.id == d.id) with
    | false => rfl
    | true =>
        rw [ComponentId.beq_iff_key] at hsame
        exact absurd (List.mem_map.mpr ⟨e, he, hsame⟩) hnew
  rw [register_of_none ((r.found d.id).trans hnone)]
  exact List.map_append

/-- The components of the registry are those that were registered, each before the ones that
were first registered later. -/
theorem keys_ofDefinitions (ds : List Definition) :
    (forall key, key ∈ (ofDefinitions ds).keys <-> key ∈ ds.map fun d => d.id.key) ∧
      (ofDefinitions ds).keys.Pairwise fun first second =>
        (ds.map fun d => d.id.key).idxOf first < (ds.map fun d => d.id.key).idxOf second := by
  induction ds using List.reverseRecOn with
  | nil => exact ⟨fun key => Iff.rfl, List.Pairwise.nil⟩
  | append_singleton ds d ih =>
      rcases ih with ⟨hmem, horder⟩
      -- The first time of a component that is there stays as it was.
      have hkept : (ofDefinitions ds).keys.Pairwise fun first second =>
          ((ds ++ [d]).map fun d => d.id.key).idxOf first <
            ((ds ++ [d]).map fun d => d.id.key).idxOf second := by
        refine horder.imp_of_mem ?_
        intro first second hfirst hsecond hlt
        rw [List.map_append, List.idxOf_append_of_mem ((hmem first).mp hfirst),
          List.idxOf_append_of_mem ((hmem second).mp hsecond)]
        exact hlt
      rw [ofDefinitions_concat]
      by_cases hold : d.id.key ∈ (ofDefinitions ds).keys
      · rw [keys_register_of_mem hold]
        refine ⟨?_, hkept⟩
        intro key
        rw [hmem, List.map_append, List.mem_append, List.map_singleton, List.mem_singleton]
        constructor
        · exact Or.inl
        · intro h
          rcases h with hkey | rfl
          · exact hkey
          · exact (hmem _).mp hold
      · rw [keys_register_of_new hold]
        refine ⟨?_, List.pairwise_append.mpr ⟨hkept, List.pairwise_singleton _ _, ?_⟩⟩
        · intro key
          rw [List.mem_append, hmem, List.map_append, List.mem_append]
          rfl
        · intro first hfirst second hsecond
          rw [List.mem_singleton.mp hsecond, List.map_append,
            List.idxOf_append_of_mem ((hmem first).mp hfirst),
            List.idxOf_append_of_notMem (fun hkey => hold ((hmem _).mpr hkey))]
          have hbefore := List.idxOf_lt_length_of_mem ((hmem first).mp hfirst)
          omega

theorem pairwise_firstTime (ds : List Definition) :
    (ofDefinitions ds).definitions.Pairwise fun d e => firstTime ds d.id < firstTime ds e.id := by
  have horder := (keys_ofDefinitions ds).right
  rw [keys, List.pairwise_map] at horder
  exact horder

theorem registered_ofDefinitions_iff (ds : List Definition) (id : ComponentId) :
    (exists d, d ∈ (ofDefinitions ds).definitions ∧ (d.id == id) = true) <->
      exists d, d ∈ ds ∧ (d.id == id) = true := by
  have hmem := (keys_ofDefinitions ds).left id.key
  rw [keys, List.mem_map, List.mem_map] at hmem
  simp only [ComponentId.beq_iff_key]
  exact hmem

/-!
# The indices
-/

theorem byId_points {r : Registry} {id : ComponentId} {position : Nat}
    (hindex : (id, position) ∈ r.byId.pairs) :
    exists d, r.definitions[position]? = some d ∧ (d.id == id) = true := by
  have hfound := (r.found id).symm.trans (Index.find_of_mem r.byId.distinct hindex (BEq.refl id))
  rcases List.findIdx?_eq_some_iff_getElem.mp hfound with ⟨hlt, hsame, _⟩
  exact ⟨r.definitions[position], List.getElem?_eq_getElem hlt, hsame⟩

theorem byName_points {r : Registry} {name : String} {position : Nat}
    (hindex : (name, position) ∈ r.byName.pairs) :
    exists d, r.definitions[position]? = some d ∧ d.name = name :=
  r.named name position (Index.find_of_mem r.byName.distinct hindex (BEq.refl name))

theorem containsName_eq_isSome_lookup (r : Registry) (name : String) :
    r.containsName name = (r.lookup name).isSome := by
  unfold containsName Index.contains lookup
  cases hposition : r.byName.get? name with
  | none => rfl
  | some position =>
      rcases r.named name position hposition with ⟨d, hd, _⟩
      rw [Option.bind_some, hd]
      rfl

theorem containsName_ofDefinitions_iff (ds : List Definition) (name : String) :
    (ofDefinitions ds).containsName name = true <->
      exists d, d ∈ (ofDefinitions ds).definitions ∧ d.name = name := by
  rw [containsName_eq_isSome_lookup, lookup_isSome_iff, defines, List.any_eq_true]
  simp only [beq_iff_eq]

/-!
# The whole registry
-/

theorem registrations_determine_registry (ds : List Definition) :
    RepeatFree (ofDefinitions ds).ids ∧
      (ofDefinitions ds).definitions.Pairwise
        (fun d e => firstTime ds d.id < firstTime ds e.id) ∧
      (forall id, (exists d, d ∈ (ofDefinitions ds).definitions ∧ (d.id == id) = true) <->
        exists d, d ∈ ds ∧ (d.id == id) = true) ∧
      (forall d, d ∈ (ofDefinitions ds).definitions -> (ofDefinitions ds).get? d.id = some d) ∧
      (forall id, (ofDefinitions ds).get? id = ds.reverse.find? fun d => d.id == id) ∧
      (forall name, (ofDefinitions ds).lookup name = ds.reverse.find? fun d => d.name == name) ∧
      (forall name, (ofDefinitions ds).containsName name = true <->
        exists d, d ∈ (ofDefinitions ds).definitions ∧ d.name = name) ∧
      (forall id position, (id, position) ∈ (ofDefinitions ds).byId.pairs ->
        exists d, (ofDefinitions ds).definitions[position]? = some d ∧ (d.id == id) = true) ∧
      forall name position, (name, position) ∈ (ofDefinitions ds).byName.pairs ->
        exists d, (ofDefinitions ds).definitions[position]? = some d ∧ d.name = name := by
  refine ⟨repeatFree_ids _, pairwise_firstTime ds, registered_ofDefinitions_iff ds,
    fun d => get?_of_mem, get?_ofDefinitions ds, lookup_ofDefinitions ds,
    containsName_ofDefinitions_iff ds, ?_, ?_⟩
  · intro id position hindex
    exact byId_points hindex
  · intro name position hindex
    exact byName_points hindex

end Registry
end JsxUsage
