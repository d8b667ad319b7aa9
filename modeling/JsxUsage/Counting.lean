/-!
# Counting members

The walks and expansions of this library end because fewer and fewer members of a
list have a property.
-/

namespace JsxUsage
namespace Counting

theorem countP_lt {α : Type} {p q : α -> Bool} {a : α} {xs : List α}
    (himp : forall x, p x = true -> q x = true) (hmem : a ∈ xs) (hp : p a = false)
    (hq : q a = true) : xs.countP p < xs.countP q := by
  rcases List.append_of_mem hmem with ⟨front, back, rfl⟩
  have hfront : front.countP p ≤ front.countP q := List.countP_mono_left fun x _ => himp x
  have hback : back.countP p ≤ back.countP q := List.countP_mono_left fun x _ => himp x
  rw [List.countP_append, List.countP_append, List.countP_cons_of_pos hq,
    List.countP_cons_of_neg (by simp [hp])]
  omega

end Counting
end JsxUsage
