/-!
# Indices

An index holds one value for each of its keys, in the order in which the keys
came.  Keys that `==` holds of count as one key, and the spelling that came first
is kept.
-/

namespace JsxUsage

structure Index (κ ν : Type) [BEq κ] where
  pairs : List (κ × ν)
  distinct : pairs.Pairwise fun first second => (first.1 == second.1) = false
deriving Repr

namespace Index

variable {κ ν : Type} [BEq κ]

def empty : Index κ ν := ⟨[], List.Pairwise.nil⟩

instance : Inhabited (Index κ ν) := ⟨empty⟩

def find (key : κ) : List (κ × ν) -> Option ν
  | [] => none
  | (k, v) :: rest => if k == key then some v else find key rest

/-- Set the value of a key in a list of pairs; a new key comes last. -/
def set (key : κ) (value : ν) : List (κ × ν) -> List (κ × ν)
  | [] => [(key, value)]
  | (k, v) :: rest => if k == key then (k, value) :: rest else (k, v) :: set key value rest

theorem mem_set {key : κ} {value : ν} {pairs : List (κ × ν)} {pair : κ × ν}
    (h : pair ∈ set key value pairs) :
    pair.1 = key ∨ exists old, old ∈ pairs ∧ old.1 = pair.1 := by
  induction pairs with
  | nil =>
      simp only [set, List.mem_singleton] at h
      exact Or.inl (congrArg Prod.fst h)
  | cons first rest ih =>
      rcases first with ⟨k, v⟩
      by_cases hsame : (k == key) = true
      · simp only [set, hsame, if_true, List.mem_cons] at h
        rcases h with rfl | hlater
        · exact Or.inr ⟨(k, v), List.mem_cons_self, rfl⟩
        · exact Or.inr ⟨pair, List.mem_cons_of_mem _ hlater, rfl⟩
      · simp only [set, hsame, Bool.false_eq_true, if_false, List.mem_cons] at h
        rcases h with rfl | hlater
        · exact Or.inr ⟨(k, v), List.mem_cons_self, rfl⟩
        · rcases ih hlater with hown | ⟨old, hmem, heq⟩
          · exact Or.inl hown
          · exact Or.inr ⟨old, List.mem_cons_of_mem _ hmem, heq⟩

theorem distinct_set (key : κ) (value : ν) {pairs : List (κ × ν)}
    (h : pairs.Pairwise fun first second => (first.1 == second.1) = false) :
    (set key value pairs).Pairwise fun first second => (first.1 == second.1) = false := by
  induction pairs with
  | nil => exact List.pairwise_singleton _ _
  | cons first rest ih =>
      rcases first with ⟨k, v⟩
      rcases List.pairwise_cons.mp h with ⟨haway, hrest⟩
      by_cases hsame : (k == key) = true
      · simp only [set, hsame, if_true]
        exact List.pairwise_cons.mpr ⟨haway, hrest⟩
      · simp only [set, hsame, Bool.false_eq_true, if_false]
        refine List.pairwise_cons.mpr ⟨?_, ih hrest⟩
        intro pair hpair
        rcases mem_set hpair with hown | ⟨old, hold, heq⟩
        · simpa [hown] using hsame
        · rw [← heq]
          exact haway old hold

theorem mem_of_find {key : κ} {value : ν} {pairs : List (κ × ν)}
    (h : find key pairs = some value) : exists k, (k, value) ∈ pairs ∧ (k == key) = true := by
  induction pairs with
  | nil => cases h
  | cons first rest ih =>
      rcases first with ⟨k, v⟩
      by_cases hsame : (k == key) = true
      · simp only [find, hsame, if_true, Option.some.injEq] at h
        exact ⟨k, by simp [h], hsame⟩
      · simp only [find, hsame, Bool.false_eq_true, if_false] at h
        rcases ih h with ⟨k', hmem, heq⟩
        exact ⟨k', List.mem_cons_of_mem _ hmem, heq⟩

theorem find_set [EquivBEq κ] (key other : κ) (value : ν) (pairs : List (κ × ν)) :
    find other (set key value pairs) = if key == other then some value else find other pairs := by
  induction pairs with
  | nil => rfl
  | cons first rest ih =>
      rcases first with ⟨k, v⟩
      cases hkey : (k == key) with
      | true =>
          simp only [set, hkey, if_true, find, BEq.congr_left hkey]
          cases (key == other) with
          | true => rfl
          | false => rfl
      | false =>
          simp only [set, hkey, Bool.false_eq_true, if_false, find, ih]
          cases hother : (key == other) with
          | true =>
              rw [← BEq.congr_right hother, hkey]
              rfl
          | false => rfl

def get? (index : Index κ ν) (key : κ) : Option ν :=
  find key index.pairs

def put (index : Index κ ν) (key : κ) (value : ν) : Index κ ν :=
  ⟨set key value index.pairs, distinct_set key value index.distinct⟩

theorem get?_put [EquivBEq κ] (index : Index κ ν) (key other : κ) (value : ν) :
    (index.put key value).get? other = if key == other then some value else index.get? other :=
  find_set key other value index.pairs

def contains (index : Index κ ν) (key : κ) : Bool :=
  (index.get? key).isSome

def keys (index : Index κ ν) : List κ :=
  index.pairs.map Prod.fst

def size (index : Index κ ν) : Nat :=
  index.pairs.length

end Index
end JsxUsage
