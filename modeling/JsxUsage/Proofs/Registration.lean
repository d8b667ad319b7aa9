import JsxUsage.Proofs.Walks
import JsxUsage.Registry

/-!
# Registration

A registry holds a list of definitions and indices that point into it.  This module
states what a registry carries of its own in terms of the components in their order: none
comes twice, and the index by component finds each.
-/

namespace JsxUsage

/-!
# Looking up in an index
-/

namespace Index

variable {κ ν : Type} [BEq κ] [EquivBEq κ]

theorem get?_congr {key other : κ} (h : (key == other) = true) (index : Index κ ν) :
    index.get? key = index.get? other := by
  have hfind : forall pairs : List (κ × ν), find key pairs = find other pairs := by
    intro pairs
    induction pairs with
    | nil => rfl
    | cons first rest ih => rw [find, find, BEq.congr_right h, ih]
  exact hfind index.pairs

theorem find_of_mem {key k : κ} {value : ν} {pairs : List (κ × ν)}
    (hdistinct : pairs.Pairwise fun first second => (first.1 == second.1) = false)
    (hmem : (k, value) ∈ pairs) (hkey : (k == key) = true) : find key pairs = some value := by
  induction pairs with
  | nil => cases hmem
  | cons first rest ih =>
      rcases List.pairwise_cons.mp hdistinct with ⟨haway, hrest⟩
      rcases List.mem_cons.mp hmem with rfl | hlater
      · simp only [find, hkey, if_true]
      · have hother : (first.1 == key) = false := by
          rw [← BEq.congr_right hkey]
          exact haway (k, value) hlater
        simp only [find, hother, Bool.false_eq_true, if_false]
        exact ih hrest hlater

omit [EquivBEq κ] in
theorem set_of_new {key : κ} (value : ν) {pairs : List (κ × ν)}
    (h : forall pair, pair ∈ pairs -> (pair.1 == key) = false) :
    set key value pairs = pairs ++ [(key, value)] := by
  induction pairs with
  | nil => rfl
  | cons first rest ih =>
      have hfirst := h first List.mem_cons_self
      have hrest := ih fun pair hpair => h pair (List.mem_cons_of_mem first hpair)
      simp only [set, hfirst, Bool.false_eq_true, if_false, hrest, List.cons_append]

theorem set_set (key : κ) (first second : ν) (pairs : List (κ × ν)) :
    set key second (set key first pairs) = set key second pairs := by
  induction pairs with
  | nil => simp [set]
  | cons pair rest ih =>
      rcases pair with ⟨k, v⟩
      cases hsame : (k == key) with
      | true => simp [set, hsame]
      | false => simp [set, hsame, ih]

theorem contains_iff {index : Index κ ν} {key : κ} :
    index.contains key = true <-> exists k v, (k, v) ∈ index.pairs ∧ (k == key) = true := by
  rw [contains, Option.isSome_iff_exists]
  constructor
  · intro h
    rcases h with ⟨v, hv⟩
    rcases mem_of_find hv with ⟨k, hmem, hkey⟩
    exact ⟨k, v, hmem, hkey⟩
  · intro h
    rcases h with ⟨k, v, hmem, hkey⟩
    exact ⟨v, find_of_mem index.distinct hmem hkey⟩

end Index

namespace Registry

open Adjacency (RepeatFree repeatFree_snoc)

/-- The components in the order of their definitions. -/
def ids (r : Registry) : List ComponentId :=
  r.definitions.map Definition.id

/-- The component has a definition. -/
def Registered (r : Registry) (id : ComponentId) : Prop :=
  (r.get? id).isSome = true

instance (r : Registry) (id : ComponentId) : Decidable (r.Registered id) :=
  inferInstanceAs (Decidable (_ = true))

theorem registered_congr {r : Registry} {id other : ComponentId} (hsame : (id == other) = true)
    (h : r.Registered id) : r.Registered other := by
  unfold Registered get? at h ⊢
  rw [← Index.get?_congr hsame]
  exact h

theorem repeatFree_iff_nodup {cs : List ComponentId} :
    RepeatFree cs <-> (cs.map ComponentId.key).Nodup := by
  unfold RepeatFree List.Nodup
  rw [List.pairwise_map]
  constructor
  · intro h
    refine h.imp ?_
    intro c d hcd hsame
    rw [ComponentId.beq_iff_key.mpr hsame] at hcd
    cases hcd
  · intro h
    refine h.imp ?_
    intro c d hcd
    cases hsame : (c == d) with
    | false => rfl
    | true => exact absurd (ComponentId.beq_iff_key.mp hsame) hcd

theorem repeatFree_ids (r : Registry) : RepeatFree r.ids := by
  rw [repeatFree_iff_nodup, ids, List.map_map]
  exact r.distinct

theorem get?_byId (r : Registry) (id : ComponentId) :
    r.byId.get? id = r.ids.findIdx? (· == id) := by
  rw [r.found, ids, List.findIdx?_map]
  rfl

/-- A component is found at the one place that holds it. -/
theorem findIdx?_eq_some_iff_of_repeatFree {cs : List ComponentId} (hdistinct : RepeatFree cs)
    {id : ComponentId} {position : Nat} :
    cs.findIdx? (· == id) = some position <->
      exists c, cs[position]? = some c ∧ (c == id) = true := by
  rw [List.findIdx?_eq_some_iff_getElem]
  constructor
  · intro h
    rcases h with ⟨hlt, hsame, _⟩
    exact ⟨cs[position], List.getElem?_eq_getElem hlt, hsame⟩
  · intro h
    rcases h with ⟨c, hc, hsame⟩
    rcases List.getElem?_eq_some_iff.mp hc with ⟨hlt, rfl⟩
    refine ⟨hlt, hsame, ?_⟩
    intro earlier hearlier hother
    have haway := List.pairwise_iff_getElem.mp hdistinct earlier position
      (Nat.lt_trans hearlier hlt) hlt hearlier
    rw [BEq.trans hother (BEq.symm hsame)] at haway
    cases haway

theorem registered_iff {r : Registry} (id : ComponentId) :
    r.Registered id <-> exists position, r.ids.findIdx? (· == id) = some position := by
  unfold Registered get?
  rw [get?_byId]
  constructor
  · intro hsome
    cases hposition : r.ids.findIdx? (· == id) with
    | none =>
        rw [hposition] at hsome
        cases hsome
    | some position => exact ⟨position, rfl⟩
  · intro h
    rcases h with ⟨position, hposition⟩
    have hlt : position < r.definitions.length := by
      rcases List.findIdx?_eq_some_iff_getElem.mp hposition with ⟨hlt, _⟩
      simpa [ids] using hlt
    rw [hposition, Option.bind_some, List.getElem?_eq_getElem hlt]
    rfl

end Registry
end JsxUsage
