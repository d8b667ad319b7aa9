import JsxUsage.Proofs.Registration
import Mathlib.Data.List.Induction

/-!
# What a registry finds

A registry is filled by one registration after another, and its indices point to places
in a list in which definitions are replaced.  This module proves that nothing of this can
be seen from outside: whatever is asked for, by component or by name, the registry
answers with the definition that was registered last.
-/

namespace JsxUsage
namespace Registry

/-- Whether some definition has the name. -/
def defines (r : Registry) (name : String) : Bool :=
  r.definitions.any fun d => d.name == name

/-!
# One registration

A registration puts its definition at a place to which both indices then point.
-/

/-- The registration of `d` has put it at `position`, and no other definition is lost. -/
structure Registers (r : Registry) (d : Definition) (next : Registry) (position : Nat) : Prop where
  here : next.definitions[position]? = some d
  index : forall id, next.byId.get? id = if d.id == id then some position else r.byId.get? id
  owner : next.byName = r.byName.put d.name position
  others : forall other e, r.definitions[other]? = some e -> other ≠ position ->
    next.definitions[other]? = some e
  same : forall e, r.definitions[position]? = some e -> (e.id == d.id) = true

theorem byId_congr (r : Registry) {id other : ComponentId} (hsame : (id == other) = true) :
    r.byId.get? id = r.byId.get? other :=
  Index.get?_congr hsame r.byId

theorem registers_register (r : Registry) (d : Definition) :
    exists position, Registers r d (r.register d) position := by
  cases hposition : r.byId.get? d.id with
  | some position =>
      have hfound := (r.found d.id).symm.trans hposition
      rcases List.findIdx?_eq_some_iff_getElem.mp hfound with ⟨hlt, hsame, _⟩
      rw [register_of_some hposition]
      refine ⟨position, ?_, ?_, rfl, ?_, ?_⟩
      · simp [replace, hlt]
      · intro id
        by_cases hid : (d.id == id) = true
        · rw [if_pos hid]
          exact (byId_congr r hid).symm.trans hposition
        · rw [if_neg hid]
          rfl
      · intro other e he hother
        simp [replace, List.getElem?_set_ne (Ne.symm hother), he]
      · intro e he
        rw [List.getElem?_eq_getElem hlt] at he
        cases he
        exact hsame
  | none =>
      rw [register_of_none hposition]
      refine ⟨r.definitions.length, ?_, ?_, rfl, ?_, ?_⟩
      · simp [append]
      · intro id
        simp [append, Index.get?_put]
      · intro other e he hother
        have hlt := (List.getElem?_eq_some_iff.mp he).1
        simp [append, List.getElem?_append_left hlt, he]
      · intro e he
        simp at he

theorem lookup_register (r : Registry) (d : Definition) (name : String) :
    (r.register d).lookup name = if d.name == name then some d else r.lookup name := by
  rcases registers_register r d with ⟨position, hregisters⟩
  unfold lookup
  rw [hregisters.owner, Index.get?_put]
  by_cases hname : (d.name == name) = true
  · rw [if_pos hname, if_pos hname]
    exact hregisters.here
  · rw [if_neg hname, if_neg hname]
    cases hother : r.byName.get? name with
    | none => rfl
    | some other =>
        rcases r.named name other hother with ⟨e, he, rfl⟩
        have hapart : other ≠ position := by
          intro hsame
          subst hsame
          apply hname
          rw [beq_iff_eq]
          exact (ComponentId.name_eq_of_beq (hregisters.same e he)).symm
        rw [Option.bind_some, Option.bind_some, hregisters.others other e he hapart, he]

theorem get?_register (r : Registry) (d : Definition) (id : ComponentId) :
    (r.register d).get? id = if d.id == id then some d else r.get? id := by
  rcases registers_register r d with ⟨position, hregisters⟩
  unfold get?
  rw [hregisters.index]
  by_cases hid : (d.id == id) = true
  · rw [if_pos hid, if_pos hid]
    exact hregisters.here
  · rw [if_neg hid, if_neg hid]
    cases hother : r.byId.get? id with
    | none => rfl
    | some other =>
        rw [r.found] at hother
        rcases List.findIdx?_eq_some_iff_getElem.mp hother with ⟨hlt, hsame, _⟩
        have he : r.definitions[other]? = some r.definitions[other] := List.getElem?_eq_getElem hlt
        have hapart : other ≠ position := by
          intro hposition
          subst hposition
          exact hid (BEq.trans (BEq.symm (hregisters.same _ he)) hsame)
        rw [Option.bind_some, Option.bind_some, hregisters.others other _ he hapart, he]

/-!
# All registrations
-/

theorem ofDefinitions_concat (ds : List Definition) (d : Definition) :
    ofDefinitions (ds ++ [d]) = (ofDefinitions ds).register d := by
  rw [ofDefinitions, List.foldl_append]
  rfl

theorem find?_reverse_concat {α : Type} (p : α -> Bool) (xs : List α) (x : α) :
    (xs ++ [x]).reverse.find? p = if p x then some x else xs.reverse.find? p := by
  rw [List.reverse_append, List.reverse_singleton, List.singleton_append, List.find?_cons]
  cases p x with
  | true => rfl
  | false => rfl

/-- A component has the definition that was registered last for it. -/
theorem get?_ofDefinitions (ds : List Definition) (id : ComponentId) :
    (ofDefinitions ds).get? id = ds.reverse.find? fun d => d.id == id := by
  induction ds using List.reverseRecOn with
  | nil => rfl
  | append_singleton ds d ih =>
      rw [ofDefinitions_concat, get?_register, ih, find?_reverse_concat]

/-- A name belongs to the definition that was registered last under it. -/
theorem lookup_ofDefinitions (ds : List Definition) (name : String) :
    (ofDefinitions ds).lookup name = ds.reverse.find? fun d => d.name == name := by
  induction ds using List.reverseRecOn with
  | nil => rfl
  | append_singleton ds d ih =>
      rw [ofDefinitions_concat, lookup_register, ih, find?_reverse_concat]

/-!
The definitions that the registry holds are those that it finds.
-/

theorem get?_eq_find? (r : Registry) (id : ComponentId) :
    r.get? id = r.definitions.find? fun d => d.id == id := by
  unfold get?
  rw [r.found, List.find?_eq_bind_findIdx?_getElem?]

theorem mem_of_get? {r : Registry} {id : ComponentId} {d : Definition}
    (hget : r.get? id = some d) : d ∈ r.definitions ∧ (d.id == id) = true := by
  rw [get?_eq_find?] at hget
  refine ⟨List.mem_of_find?_eq_some hget, ?_⟩
  have hsame := List.find?_some hget
  exact hsame

theorem get?_of_mem {r : Registry} {d : Definition} (hd : d ∈ r.definitions) :
    r.get? d.id = some d := by
  rw [get?_eq_find?]
  have hdistinct := r.repeatFree_ids
  unfold Adjacency.RepeatFree ids at hdistinct
  rw [List.pairwise_map] at hdistinct
  generalize r.definitions = ds at hd hdistinct
  induction ds with
  | nil => cases hd
  | cons e rest ih =>
      rcases List.pairwise_cons.mp hdistinct with ⟨haway, hrest⟩
      rcases List.mem_cons.mp hd with rfl | hlater
      · rw [List.find?_cons, BEq.rfl]
      · rw [List.find?_cons, haway d hlater]
        exact ih hlater hrest

theorem registered_iff_mem {r : Registry} (id : ComponentId) :
    r.Registered id <-> exists d, d ∈ r.definitions ∧ (d.id == id) = true := by
  unfold Registered
  rw [get?_eq_find?, List.find?_isSome]

theorem registered_of_mem {r : Registry} {d : Definition} (hd : d ∈ r.definitions) :
    r.Registered d.id :=
  (registered_iff_mem d.id).mpr ⟨d, hd, BEq.rfl⟩

theorem mem_of_lookup {r : Registry} {name : String} {d : Definition}
    (hlookup : r.lookup name = some d) : d ∈ r.definitions ∧ d.name = name := by
  rcases Option.bind_eq_some_iff.mp hlookup with ⟨position, hposition, hd⟩
  rcases r.named name position hposition with ⟨e, he, hname⟩
  rw [hd] at he
  cases he
  exact ⟨List.mem_of_getElem? hd, hname⟩

theorem mem_of_mem_ofDefinitions {ds : List Definition} {d : Definition}
    (hd : d ∈ (ofDefinitions ds).definitions) : d ∈ ds := by
  have hget := get?_of_mem hd
  rw [get?_ofDefinitions] at hget
  exact List.mem_reverse.mp (List.mem_of_find?_eq_some hget)

theorem lookup_isSome_iff (ds : List Definition) (name : String) :
    ((ofDefinitions ds).lookup name).isSome = (ofDefinitions ds).defines name := by
  rw [Bool.eq_iff_iff, defines, List.any_eq_true]
  constructor
  · intro hsome
    rcases Option.isSome_iff_exists.mp hsome with ⟨d, hd⟩
    rcases mem_of_lookup hd with ⟨hmem, hname⟩
    exact ⟨d, hmem, beq_iff_eq.mpr hname⟩
  · intro h
    rcases h with ⟨d, hd, hname⟩
    rw [lookup_ofDefinitions, List.find?_isSome]
    exact ⟨d, List.mem_reverse.mpr (mem_of_mem_ofDefinitions hd), hname⟩

end Registry
end JsxUsage
