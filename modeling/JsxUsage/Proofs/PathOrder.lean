import JsxUsage.Path
import Mathlib.Data.List.Sort

/-!
# The order of paths

Parts are ordered by kind and then by text, and paths by their lists of parts, so
that two paths are in order both ways only if they have the same parts.  A sorted
list of different paths is therefore strictly increasing.
-/

namespace JsxUsage

/-- Sorting makes a list strictly increasing, if no two of its items are equal in the order. -/
theorem pairwise_lt_mergeSort {α : Type} (cmp : α -> α -> Ordering) [Std.TransCmp cmp]
    {items : List α} (hdistinct : items.Pairwise fun x y => cmp x y ≠ .eq) :
    (items.mergeSort fun x y => (cmp x y).isLE).Pairwise fun x y => cmp x y = .lt := by
  have hsorted : (items.mergeSort fun x y => (cmp x y).isLE).Pairwise fun x y =>
      (cmp x y).isLE = true := by
    apply List.pairwise_mergeSort
    · intro x y z hxy hyz
      exact Std.TransCmp.isLE_trans hxy hyz
    · intro x y
      have hswap : cmp y x = (cmp x y).swap := Std.OrientedCmp.eq_swap
      rw [hswap]
      cases cmp x y <;> rfl
  have hapart : (items.mergeSort fun x y => (cmp x y).isLE).Pairwise fun x y => cmp x y ≠ .eq := by
    refine (List.Perm.pairwise_iff ?_ (List.mergeSort_perm items _)).mpr hdistinct
    intro x y hne hswap
    exact hne (Std.OrientedCmp.eq_symm hswap)
  refine (hsorted.and hapart).imp ?_
  intro x y h
  cases hcompare : cmp x y with
  | lt => rfl
  | eq => exact absurd hcompare h.right
  | gt =>
      have hle := h.left
      rw [hcompare] at hle
      cases hle

namespace Part

/-- The text of a name; no other part has one. -/
def nameText : Part -> String
  | name text => text
  | _ => ""

theorem compare_eq_compareLex : Part.compare = compareLex (compareOn rank) (compareOn nameText) := by
  funext a b
  cases a with
  | name s => cases b <;> rfl
  | root => cases b <;> rfl
  | here => cases b <;> rfl
  | up => cases b <;> rfl

instance : Std.TransCmp Part.compare := by
  rw [compare_eq_compareLex]
  infer_instance

theorem eq_of_rank {a b : Part} (hrank : a.rank = b.rank) (htext : a.nameText = b.nameText) :
    a = b := by
  cases a <;> cases b <;> simp_all [rank, nameText]

instance : Std.LawfulEqCmp Part.compare where
  compare_self := by
    intro a
    rw [compare_eq_compareLex]
    simp [compareLex, compareOn]
  eq_of_compare := by
    intro a b h
    rw [compare_eq_compareLex] at h
    simp only [compareLex, compareOn, Ordering.then_eq_eq, Std.LawfulEqOrd.compare_eq_iff_eq] at h
    exact eq_of_rank h.1 h.2

end Part

namespace Path

theorem compareParts_eq_compareLex : compareParts = List.compareLex Part.compare := by
  funext ps qs
  induction ps generalizing qs with
  | nil => cases qs <;> rfl
  | cons p ps ih =>
      cases qs with
      | nil => rfl
      | cons q qs => rw [compareParts, List.compareLex_cons_cons, ih]

instance : Std.TransCmp compareParts := by
  rw [compareParts_eq_compareLex]
  infer_instance

instance : Std.LawfulEqCmp compareParts := by
  rw [compareParts_eq_compareLex]
  infer_instance

theorem beq_iff_parts {p q : Path} : (p == q) = true <-> p.parts = q.parts := by
  show (p.parts == q.parts) = true <-> p.parts = q.parts
  rw [beq_iff_eq]

instance : EquivBEq Path where
  rfl := beq_iff_parts.mpr rfl
  symm h := beq_iff_parts.mpr (beq_iff_parts.mp h).symm
  trans h1 h2 := beq_iff_parts.mpr ((beq_iff_parts.mp h1).trans (beq_iff_parts.mp h2))

instance : Std.TransOrd Path where
  eq_swap := (inferInstance : Std.TransCmp compareParts).eq_swap
  isLE_trans := (inferInstance : Std.TransCmp compareParts).isLE_trans

theorem compare_eq_eq_iff {a b : Path} : a.compare b = .eq <-> (a == b) = true := by
  show compareParts a.parts b.parts = .eq <-> (a == b) = true
  rw [beq_iff_parts, Std.LawfulEqCmp.compare_eq_iff_eq]

theorem ne_of_compare_lt {a b : Path} (h : a.compare b = .lt) : (a == b) = false := by
  rw [Bool.eq_false_iff]
  intro hsame
  rw [compare_eq_eq_iff.mpr hsame] at h
  cases h

theorem not_lt_of_lt {a b : Path} (h : a.compare b = .lt) : b.compare a ≠ .lt := by
  have hswap : compareParts b.parts a.parts = (compareParts a.parts b.parts).swap :=
    Std.OrientedCmp.eq_swap
  rw [compare] at h
  rw [compare, hswap, h]
  decide

/-- Sorting by path makes the paths strictly increasing, if they are different. -/
theorem increasing_mergeSort {α : Type} (pathOf : α -> Path) {items : List α}
    (hdistinct : items.Pairwise fun x y => (pathOf x == pathOf y) = false) :
    (items.mergeSort fun x y => (pathOf x).le (pathOf y)).Pairwise fun x y =>
      (pathOf x).compare (pathOf y) = .lt := by
  have hapart : items.Pairwise fun x y => compareOn pathOf x y ≠ .eq := by
    refine hdistinct.imp ?_
    intro x y hne heq
    rw [compare_eq_eq_iff.mp heq] at hne
    cases hne
  exact pairwise_lt_mergeSort (compareOn pathOf) hapart

end Path
end JsxUsage
