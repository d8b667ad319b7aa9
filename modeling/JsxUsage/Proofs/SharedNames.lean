import JsxUsage.Proofs.PathOrder
import JsxUsage.Proofs.RegistrationOrder

/-!
# Shared names

A registry can be asked for the names that several components share, for the owner of a
name, and for whether a component has lost its name to another one.  The three answers
are found in different ways: by grouping the definitions, by one index, and by comparing
two indices.  This module proves that they agree after every sequence of registrations.
-/

namespace JsxUsage
namespace Registry

open Adjacency (RepeatFree)

theorem filter_beq_of_mem {cs : List ComponentId} (hfree : RepeatFree cs) {c : ComponentId}
    (hc : c ∈ cs) : cs.filter (· == c) = [c] := by
  induction cs with
  | nil => cases hc
  | cons first rest ih =>
      rcases Adjacency.repeatFree_cons.mp hfree with ⟨haway, hrest⟩
      rcases List.mem_cons.mp hc with rfl | hlater
      · have hnone : rest.filter (· == c) = [] := by
          rw [List.filter_eq_nil_iff]
          intro d hd hsame
          rw [BEq.comm, haway d hd] at hsame
          cases hsame
        rw [List.filter_cons, if_pos BEq.rfl, hnone]
      · rw [List.filter_cons, haway c hlater, if_neg Bool.false_ne_true, ih hrest hlater]

theorem pairwise_lt_of_nodup {names : List String} (h : names.Nodup) :
    (names.mergeSort fun a b => a ≤ b).Pairwise (· < ·) := by
  have hsorted : (names.mergeSort fun a b => a ≤ b).Pairwise fun a b => decide (a ≤ b) = true := by
    apply List.pairwise_mergeSort
    · intro a b c hab hbc
      exact decide_eq_true (String.le_trans (of_decide_eq_true hab) (of_decide_eq_true hbc))
    · intro a b
      simpa using String.le_total a b
  have hapart : (names.mergeSort fun a b => a ≤ b).Nodup :=
    (List.mergeSort_perm names _).nodup_iff.mpr h
  refine (hsorted.and hapart).imp ?_
  intro a b hab
  exact Std.lt_of_le_of_ne (of_decide_eq_true hab.left) hab.right

/-!
# The owner and the others
-/

/-- The components with a name. -/
def withName (r : Registry) (name : String) : List ComponentId :=
  r.ids.filter fun id => id.name == name

/-- The components that share the name of a component. -/
def rivals (r : Registry) (owner : ComponentId) : List ComponentId :=
  (r.withName owner.name).filter fun id => !(id == owner)

theorem mem_rivals {r : Registry} {owner id : ComponentId} :
    id ∈ r.rivals owner <-> id ∈ r.ids ∧ id.name = owner.name ∧ (id == owner) = false := by
  unfold rivals withName
  rw [List.mem_filter, List.mem_filter, beq_iff_eq, Bool.not_eq_true', and_assoc]

theorem length_withName (r : Registry) (name : String) :
    (r.withName name).length = (r.definitions.filter fun d => d.name == name).length := by
  unfold withName ids
  rw [List.filter_map, List.length_map]
  rfl

theorem exists_definition_of_withName {r : Registry} {name : String} (h : r.withName name ≠ []) :
    exists d, d ∈ r.definitions ∧ d.name = name := by
  rcases List.exists_mem_of_ne_nil _ h with ⟨id, hid⟩
  rcases List.mem_filter.mp hid with ⟨hmem, hname⟩
  rcases List.mem_map.mp hmem with ⟨d, hd, rfl⟩
  exact ⟨d, hd, beq_iff_eq.mp hname⟩

section Owner

variable {r : Registry} {name : String} {owner : Definition} (howner : r.lookup name = some owner)
include howner

theorem sharers_of_lookup : r.sharers name = r.rivals owner.id ++ [owner.id] := by
  have hname : owner.id.name = name := (mem_of_lookup howner).right
  unfold sharers rivals
  rw [howner, hname]
  rfl

theorem owner_mem_withName : owner.id ∈ r.withName name := by
  rcases mem_of_lookup howner with ⟨hmem, hname⟩
  exact List.mem_filter.mpr ⟨List.mem_map_of_mem hmem, beq_iff_eq.mpr hname⟩

theorem sharers_perm : (r.sharers name).Perm (r.withName name) := by
  have hfree : RepeatFree (r.withName name) := r.repeatFree_ids.filter _
  have hself := filter_beq_of_mem hfree (owner_mem_withName howner)
  have hname : owner.id.name = name := (mem_of_lookup howner).right
  have hsplit := List.filter_append_perm (fun id => !(id == owner.id)) (r.withName name)
  simp only [Bool.not_not] at hsplit
  rw [hself] at hsplit
  rw [sharers_of_lookup howner, rivals, hname]
  exact hsplit

end Owner

/-!
# Components without their name
-/

theorem isShadowed_iff (r : Registry) (id : ComponentId) :
    r.isShadowed id = true <->
      r.Registered id ∧ exists owner, r.lookup id.name = some owner ∧ (owner.id == id) = false := by
  unfold isShadowed Registered get? lookup
  cases hown : r.byId.get? id with
  | none => simp
  | some own =>
      cases hwinner : r.byName.get? id.name with
      | none => simp
      | some winner =>
          rcases r.named id.name winner hwinner with ⟨owner, howner, _⟩
          have hplace : r.ids[winner]? = some owner.id := by simp [ids, howner]
          have hfound := (r.get?_byId id).symm.trans hown
          rcases (findIdx?_eq_some_iff_of_repeatFree r.repeatFree_ids).mp hfound with ⟨c, hc, hsame⟩
          have hlt : own < r.definitions.length := by
            simpa [ids] using (List.getElem?_eq_some_iff.mp hc).1
          have hagree : own = winner <-> (owner.id == id) = true := by
            constructor
            · intro heq
              rw [heq, hplace] at hc
              cases hc
              exact hsame
            · intro howns
              have hother := (findIdx?_eq_some_iff_of_repeatFree r.repeatFree_ids).mpr
                ⟨owner.id, hplace, howns⟩
              exact Option.some.inj (hfound.symm.trans hother)
          simp [howner, hlt, hagree]

/-!
# The list of shared names
-/

section Registrations

variable (ds : List Definition)

theorem mem_keys_byName {name : String} (h : (ofDefinitions ds).withName name ≠ []) :
    name ∈ (ofDefinitions ds).byName.keys := by
  have hcontains := (containsName_ofDefinitions_iff ds name).mpr (exists_definition_of_withName h)
  rcases Index.contains_iff.mp hcontains with ⟨key, position, hentry, hkey⟩
  rw [← beq_iff_eq.mp hkey]
  exact List.mem_map_of_mem hentry

theorem mem_collisions_iff {name : String} {group : List ComponentId} :
    (name, group) ∈ (ofDefinitions ds).collisions <->
      2 ≤ ((ofDefinitions ds).withName name).length ∧ group = (ofDefinitions ds).sharers name := by
  unfold collisions
  rw [List.mem_map]
  constructor
  · intro h
    rcases h with ⟨shared, hshared, heq⟩
    cases heq
    rw [List.mem_mergeSort, List.mem_filter, decide_eq_true_iff, ← length_withName] at hshared
    exact ⟨hshared.right, rfl⟩
  · intro h
    rcases h with ⟨htwo, rfl⟩
    have hne : (ofDefinitions ds).withName name ≠ [] := by
      intro hnil
      rw [hnil] at htwo
      cases htwo
    refine ⟨name, ?_, rfl⟩
    rw [List.mem_mergeSort, List.mem_filter, decide_eq_true_iff, ← length_withName]
    exact ⟨mem_keys_byName ds hne, htwo⟩

theorem increasing_names : ((ofDefinitions ds).collisions.map Prod.fst).Pairwise (· < ·) := by
  have hkeys : (ofDefinitions ds).byName.keys.Nodup := by
    unfold Index.keys List.Nodup
    rw [List.pairwise_map]
    exact (ofDefinitions ds).byName.distinct.imp ne_of_beq_false
  have hnames : (ofDefinitions ds).collisions.map Prod.fst =
      ((ofDefinitions ds).byName.keys.filter fun name =>
        1 < ((ofDefinitions ds).definitions.filter fun d => d.name == name).length).mergeSort
          fun a b => a ≤ b := by
    rw [collisions, List.map_map]
    exact List.map_id _
  rw [hnames]
  exact pairwise_lt_of_nodup (hkeys.filter _)

theorem exists_owner {name : String} (h : (ofDefinitions ds).withName name ≠ []) :
    exists owner, (ofDefinitions ds).lookup name = some owner := by
  have hcontains := (containsName_ofDefinitions_iff ds name).mpr (exists_definition_of_withName h)
  rw [containsName_eq_isSome_lookup] at hcontains
  exact Option.isSome_iff_exists.mp hcontains

theorem pairwise_firstTime_rivals (owner : ComponentId) :
    ((ofDefinitions ds).rivals owner).Pairwise fun c d => firstTime ds c < firstTime ds d := by
  have horder : (ofDefinitions ds).ids.Pairwise fun c d => firstTime ds c < firstTime ds d :=
    List.pairwise_map.mpr (pairwise_firstTime ds)
  exact (horder.filter _).filter _

theorem isShadowed_iff_mem_collisions (id : ComponentId) :
    (ofDefinitions ds).isShadowed id = true <->
      exists name front last, (name, front ++ [last]) ∈ (ofDefinitions ds).collisions ∧
        front.any (· == id) = true := by
  rw [isShadowed_iff, registered_iff_mem]
  constructor
  · intro h
    rcases h with ⟨⟨d, hd, hsame⟩, owner, howner, hother⟩
    have hsharers := sharers_of_lookup howner
    have hrival : d.id ∈ (ofDefinitions ds).rivals owner.id := by
      refine mem_rivals.mpr ⟨List.mem_map_of_mem hd, ?_, ?_⟩
      · rw [ComponentId.name_eq_of_beq hsame]
        exact (mem_of_lookup howner).right.symm
      · rw [BEq.congr_left hsame, BEq.comm]
        exact hother
    have htwo : 2 ≤ ((ofDefinitions ds).withName id.name).length := by
      rw [← (sharers_perm howner).length_eq, hsharers, List.length_append]
      exact Nat.succ_le_succ (List.length_pos_of_mem hrival)
    exact ⟨id.name, _, owner.id, (mem_collisions_iff ds).mpr ⟨htwo, hsharers.symm⟩,
      List.any_eq_true.mpr ⟨d.id, hrival, hsame⟩⟩
  · intro h
    rcases h with ⟨name, front, last, hgroup, hfront⟩
    rcases (mem_collisions_iff ds).mp hgroup with ⟨htwo, hsharers⟩
    rcases exists_owner ds (List.ne_nil_of_length_pos (Nat.lt_of_succ_lt htwo)) with ⟨owner, howner⟩
    rw [sharers_of_lookup howner] at hsharers
    rcases List.any_eq_true.mp hfront with ⟨c, hc, hsame⟩
    rw [(List.append_inj' hsharers rfl).left] at hc
    rcases mem_rivals.mp hc with ⟨hmem, hname, hother⟩
    rcases List.mem_map.mp hmem with ⟨d, hd, rfl⟩
    have hidName : id.name = name := by
      rw [← ComponentId.name_eq_of_beq hsame, hname]
      exact (mem_of_lookup howner).right
    refine ⟨⟨d, hd, hsame⟩, owner, ?_, ?_⟩
    · rw [hidName]
      exact howner
    · rw [BEq.comm, ← BEq.congr_left hsame]
      exact hother

end Registrations

theorem collisions_agree_with_owners (ds : List Definition) :
    ((ofDefinitions ds).collisions.map Prod.fst).Pairwise (· < ·) ∧
      (forall name, (exists group, (name, group) ∈ (ofDefinitions ds).collisions) <->
        2 ≤ ((ofDefinitions ds).definitions.filter fun d => d.name == name).length) ∧
      (forall name group, (name, group) ∈ (ofDefinitions ds).collisions ->
        RepeatFree group ∧
          group.Perm ((ofDefinitions ds).ids.filter fun id => id.name == name) ∧
          exists front owner, group = front ++ [owner.id] ∧
            (ofDefinitions ds).lookup name = some owner ∧
            front.Pairwise fun c d => firstTime ds c < firstTime ds d) ∧
      forall id, (ofDefinitions ds).isShadowed id = true <->
        exists name front last, (name, front ++ [last]) ∈ (ofDefinitions ds).collisions ∧
          front.any (· == id) = true := by
  refine ⟨increasing_names ds, ?_, ?_, isShadowed_iff_mem_collisions ds⟩
  · intro name
    rw [← length_withName]
    constructor
    · intro h
      rcases h with ⟨group, hgroup⟩
      exact ((mem_collisions_iff ds).mp hgroup).left
    · intro htwo
      exact ⟨_, (mem_collisions_iff ds).mpr ⟨htwo, rfl⟩⟩
  · intro name group hgroup
    rcases (mem_collisions_iff ds).mp hgroup with ⟨htwo, rfl⟩
    rcases exists_owner ds (List.ne_nil_of_length_pos (Nat.lt_of_succ_lt htwo)) with ⟨owner, howner⟩
    have hperm := sharers_perm howner
    have hfree : RepeatFree ((ofDefinitions ds).withName name) :=
      (ofDefinitions ds).repeatFree_ids.filter _
    refine ⟨?_, hperm, (ofDefinitions ds).rivals owner.id, owner,
      sharers_of_lookup howner, howner, pairwise_firstTime_rivals ds owner.id⟩
    rw [repeatFree_iff_nodup, (hperm.map ComponentId.key).nodup_iff, ← repeatFree_iff_nodup]
    exact hfree

end Registry
end JsxUsage
