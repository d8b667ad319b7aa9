import JsxUsage.Proofs.CursorVisits

/-!
# Tours of a cursor

A cursor goes through a tree by two loops: it goes down to first children as long as
it can, and then climbs until there is a next sibling.  It stops where the climb comes
to the node of its start.  This module reads the loops as rules and proves that every
tour ends and meets the nodes at and below its start, each at its own place, once and
in document order.
-/

namespace JsxUsage
namespace Syntax

namespace Node

/-!
# Places in a tree

A place is told by the numbers of the children that lead there.  A place comes before
the places below it, and these come before the later siblings, so document order is
the lexicographic order of places.
-/

/-- The node at a place. -/
def at? : Node -> List Nat -> Option Node
  | n, [] => some n
  | n, k :: rest =>
      match n.children[k]? with
      | some c => at? c rest
      | none => none

theorem at?_cons_eq_some_iff {n m : Node} {k : Nat} {rest : List Nat} :
    n.at? (k :: rest) = some m <-> exists c, n.children[k]? = some c ∧ c.at? rest = some m := by
  rw [at?]
  cases n.children[k]? with
  | none => simp
  | some c => simp

theorem at?_append {tree n : Node} {place : List Nat} (h : tree.at? place = some n)
    (more : List Nat) : tree.at? (place ++ more) = n.at? more := by
  induction place generalizing tree with
  | nil =>
      cases h
      rfl
  | cons k rest ih =>
      rcases at?_cons_eq_some_iff.mp h with ⟨c, hchild, hc⟩
      rw [List.cons_append, at?, hchild]
      exact ih hc

mutual

/-- The places of a tree with their nodes, each before the places below it. -/
def spots : Node -> List (List Nat × Node)
  | node l cs => ([], node l cs) :: spotsAll 0 cs

/-- The places of children, the first of which has the number `k`. -/
def spotsAll : Nat -> List Node -> List (List Nat × Node)
  | _, [] => []
  | k, c :: cs => (spots c).map (fun spot => (k :: spot.1, spot.2)) ++ spotsAll (k + 1) cs

end

mutual

theorem map_snd_spots : (n : Node) -> n.spots.map Prod.snd = n.preorder
  | node l cs => by
      rw [spots, preorder, List.map_cons, map_snd_spotsAll 0 cs]

theorem map_snd_spotsAll : (k : Nat) -> (cs : List Node) ->
    (spotsAll k cs).map Prod.snd = preorderAll cs
  | _, [] => rfl
  | k, c :: cs => by
      rw [spotsAll, preorderAll, List.map_append, List.map_map, map_snd_spotsAll (k + 1) cs,
        ← map_snd_spots c]
      rfl

end

mutual

theorem mem_spots_iff : (n : Node) -> {place : List Nat} -> {m : Node} ->
    (place, m) ∈ n.spots <-> n.at? place = some m
  | node l cs, [], m => by
      have hbelow : ([], m) ∉ spotsAll 0 cs := by
        intro hmem
        rcases (mem_spotsAll_iff 0 cs).mp hmem with ⟨j, rest, c, hplace, _⟩
        cases hplace
      rw [spots, List.mem_cons, or_iff_left hbelow, at?]
      simp [eq_comm]
  | node l cs, k :: rest, m => by
      rw [spots, List.mem_cons, mem_spotsAll_iff 0 cs, at?_cons_eq_some_iff]
      constructor
      · intro h
        rcases h with ⟨⟨⟩⟩ | ⟨j, others, c, hplace, hc, hm⟩
        rw [Nat.zero_add] at hplace
        cases hplace
        exact ⟨c, hc, hm⟩
      · intro h
        rcases h with ⟨c, hc, hm⟩
        exact Or.inr ⟨k, rest, c, by rw [Nat.zero_add], hc, hm⟩

theorem mem_spotsAll_iff : (k : Nat) -> (cs : List Node) -> {place : List Nat} -> {m : Node} ->
    (place, m) ∈ spotsAll k cs <->
      exists j rest c, place = (k + j) :: rest ∧ cs[j]? = some c ∧ c.at? rest = some m
  | k, [], place, m => by simp [spotsAll]
  | k, c :: cs, place, m => by
      rw [spotsAll, List.mem_append, List.mem_map, mem_spotsAll_iff (k + 1) cs]
      constructor
      · intro h
        rcases h with ⟨⟨rest, _⟩, hspot, ⟨⟩⟩ | ⟨j, rest, d, hplace, hd, hm⟩
        · exact ⟨0, rest, c, rfl, rfl, (mem_spots_iff c).mp hspot⟩
        · refine ⟨j + 1, rest, d, ?_, hd, hm⟩
          rw [hplace, Nat.add_assoc, Nat.add_comm 1 j]
      · intro h
        rcases h with ⟨j, rest, d, rfl, hd, hm⟩
        cases j with
        | zero =>
            cases hd
            exact Or.inl ⟨(rest, m), (mem_spots_iff c).mpr hm, rfl⟩
        | succ j =>
            refine Or.inr ⟨j, rest, d, ?_, hd, hm⟩
            rw [Nat.add_assoc, Nat.add_comm 1 j]

end

/-- One place comes before another in document order. -/
def Precedes (p q : List Nat) : Prop :=
  List.Lex (· < ·) p q

mutual

theorem spots_ordered : (n : Node) -> n.spots.Pairwise fun s s' => Precedes s.1 s'.1
  | node l cs => by
      rw [spots]
      refine List.pairwise_cons.mpr ⟨?_, spotsAll_ordered 0 cs⟩
      intro h hmem
      rcases h with ⟨place, m⟩
      rcases (mem_spotsAll_iff 0 cs).mp hmem with ⟨j, rest, c, rfl, _⟩
      exact List.Lex.nil

theorem spotsAll_ordered : (k : Nat) -> (cs : List Node) ->
    (spotsAll k cs).Pairwise fun s s' => Precedes s.1 s'.1
  | _, [] => List.Pairwise.nil
  | k, c :: cs => by
      rw [spotsAll]
      refine List.pairwise_append.mpr ⟨?_, spotsAll_ordered (k + 1) cs, ?_⟩
      · refine List.pairwise_map.mpr ((spots_ordered c).imp ?_)
        intro s s' h
        exact List.Lex.cons h
      · -- All places of a later sibling begin with a greater number.
        intro s hs s' hs'
        rcases List.mem_map.mp hs with ⟨spot, _, rfl⟩
        rcases (mem_spotsAll_iff (k + 1) cs).mp hs' with ⟨j, rest, d, hplace, _⟩
        rw [hplace]
        exact List.Lex.rel (by omega)

end

end Node

namespace Cursor

/-!
# The loops as rules
-/

/-- A climb from a cursor ends at the nearest next sibling, or above the node of the
start, where it finds nothing. -/
inductive Climbs : Cursor -> Option Cursor -> Prop where
  | beside {c next : Cursor} : c.nextSibling? = some next -> Climbs c (some next)
  | up {c above : Cursor} {found : Option Cursor} :
      c.nextSibling? = none -> c.parent? = some above -> Climbs above found -> Climbs c found
  | out {c : Cursor} : c.nextSibling? = none -> c.parent? = none -> Climbs c none

/-- From a cursor the loop meets the cursors of the tour and stops. -/
inductive Tours : Cursor -> List Cursor -> Prop where
  | down {c child : Cursor} {tour : List Cursor} :
      c.firstChild? = some child -> Tours child tour -> Tours c (c :: tour)
  | beside {c next : Cursor} {tour : List Cursor} :
      c.firstChild? = none -> Climbs c (some next) -> Tours next tour -> Tours c (c :: tour)
  | last {c : Cursor} : c.firstChild? = none -> Climbs c none -> Tours c [c]

theorem climbs_unique {c : Cursor} {found other : Option Cursor} (h : Climbs c found)
    (hother : Climbs c other) : found = other := by
  induction h with
  | beside hnext => cases hother <;> simp_all
  | up hnone habove _ ih =>
      cases hother with
      | beside hnext => simp_all
      | up _ habove' hclimb =>
          rw [habove] at habove'
          cases habove'
          exact ih hclimb
      | out _ htop => simp_all
  | out hnone htop => cases hother <;> simp_all

theorem tours_unique {c : Cursor} {tour other : List Cursor} (h : Tours c tour)
    (hother : Tours c other) : tour = other := by
  induction h generalizing other with
  | down hchild _ ih =>
      cases hother with
      | down hchild' hrest =>
          rw [hchild] at hchild'
          cases hchild'
          rw [ih hrest]
      | beside hnone => simp_all
      | last hnone => simp_all
  | beside hnone hclimb _ ih =>
      cases hother with
      | down hchild' => simp_all
      | beside _ hclimb' hrest =>
          cases climbs_unique hclimb hclimb'
          rw [ih hrest]
      | last _ hclimb' => cases climbs_unique hclimb hclimb'
  | last hnone hclimb =>
      cases hother with
      | down hchild' => simp_all
      | beside _ hclimb' => cases climbs_unique hclimb hclimb'
      | last => rfl

/-!
# The tour of a subtree

Below a node the tour does not depend on what surrounds the node: it meets all that is
below, and then goes on as a climb from the node does.
-/

mutual

/-- The cursors on a node and on all that is below it. -/
def within (trail : List Crumb) : Node -> List Cursor
  | .node l cs => ⟨.node l cs, trail⟩ :: withinAll trail l [] cs

/-- The cursors on children and on all that is below them.  The siblings `before` come
before the children, the nearest one first. -/
def withinAll (trail : List Crumb) (l : Label) : List Node -> List Node -> List Cursor
  | _, [] => []
  | before, c :: cs => within (⟨l, before, cs⟩ :: trail) c ++ withinAll trail l (c :: before) cs

end

/-- After all that is below a cursor the loop meets `rest` and stops. -/
def Continues (c : Cursor) (rest : List Cursor) : Prop :=
  (Climbs c none ∧ rest = []) ∨ exists next, Climbs c (some next) ∧ Tours next rest

mutual

theorem tours_within : (n : Node) -> (trail : List Crumb) -> (rest : List Cursor) ->
    Continues ⟨n, trail⟩ rest -> Tours ⟨n, trail⟩ (within trail n ++ rest)
  | .node l [], trail, rest, h => by
      rw [within, withinAll]
      rcases h with ⟨hclimb, rfl⟩ | ⟨next, hclimb, htour⟩
      · exact Tours.last rfl hclimb
      · exact Tours.beside rfl hclimb htour
  | .node l (c :: cs), trail, rest, h => by
      rw [within, withinAll, List.cons_append, List.append_assoc]
      exact Tours.down rfl (tours_within c _ _ (continues_within cs l c [] trail rest h))

/-- After a child come its later siblings, and then what comes after the parent. -/
theorem continues_within : (cs : List Node) -> (l : Label) -> (c : Node) ->
    (before : List Node) -> (trail : List Crumb) -> (rest : List Cursor) ->
    Continues ⟨.node l (before.reverse ++ c :: cs), trail⟩ rest ->
      Continues ⟨c, ⟨l, before, cs⟩ :: trail⟩ (withinAll trail l (c :: before) cs ++ rest)
  | [], l, c, before, trail, rest, h => by
      rw [withinAll, List.nil_append]
      rcases h with ⟨hclimb, rfl⟩ | ⟨next, hclimb, htour⟩
      · exact Or.inl ⟨Climbs.up rfl rfl hclimb, rfl⟩
      · exact Or.inr ⟨next, Climbs.up rfl rfl hclimb, htour⟩
  | d :: cs, l, c, before, trail, rest, h => by
      rw [withinAll, List.append_assoc]
      refine Or.inr ⟨_, Climbs.beside rfl, tours_within d _ _ ?_⟩
      refine continues_within cs l d (c :: before) trail rest ?_
      rw [List.reverse_cons, List.append_assoc]
      exact h

end

theorem tours_start (n : Node) : Tours (start n) (within [] n) := by
  have htour := tours_within n [] [] (Or.inl ⟨Climbs.out rfl rfl, rfl⟩)
  rw [List.append_nil] at htour
  exact htour

/-!
# The places of a tour
-/

/-- The place to which the steps of a trail lead. -/
def placeOf (trail : List Crumb) : List Nat :=
  (trail.map fun crumb => crumb.before.length).reverse

/-- The place of a cursor below the node of its start. -/
def place (c : Cursor) : List Nat :=
  placeOf c.trail

theorem placeOf_cons (crumb : Crumb) (trail : List Crumb) :
    placeOf (crumb :: trail) = placeOf trail ++ [crumb.before.length] := by
  rw [placeOf, List.map_cons, List.reverse_cons]
  rfl

mutual

theorem map_within : (n : Node) -> (trail : List Crumb) ->
    (within trail n).map (fun c => (c.place, c.focus)) =
      n.spots.map fun spot => (placeOf trail ++ spot.1, spot.2)
  | .node l cs, trail => by
      rw [within, Node.spots, List.map_cons, List.map_cons, List.append_nil]
      exact congrArg _ (map_withinAll l cs [] trail)

theorem map_withinAll : (l : Label) -> (cs before : List Node) -> (trail : List Crumb) ->
    (withinAll trail l before cs).map (fun c => (c.place, c.focus)) =
      (Node.spotsAll before.length cs).map fun spot => (placeOf trail ++ spot.1, spot.2)
  | l, [], before, trail => rfl
  | l, c :: cs, before, trail => by
      rw [withinAll, Node.spotsAll, List.map_append, List.map_append, map_within c,
        map_withinAll l cs (c :: before) trail, placeOf_cons, List.map_map]
      simp [Function.comp_def]

end

theorem map_within_nil (n : Node) :
    (within [] n).map (fun c => (c.place, c.focus)) = n.spots := by
  rw [map_within]
  exact List.map_id _

end Cursor

namespace Node

open Cursor

/-- The loop of a cursor that is started on a node of a tree ends in one way only.  It
meets the places at and below that of its start, no others, each with the node that is
there, and in document order, which is the order of the recursive traversal. -/
theorem tour_meets_subtree (tree n : Node) (start : List Nat) (hstart : tree.at? start = some n) :
    exists tour,
      (forall other, Tours (Cursor.start n) other <-> other = tour) ∧
      tour.map Cursor.focus = n.preorder ∧ n.descendants = n.preorder ∧
      (forall place m, (exists c, c ∈ tour ∧ start ++ c.place = place ∧ c.focus = m) <->
        start <+: place ∧ tree.at? place = some m) ∧
      tour.Pairwise fun c d => Precedes c.place d.place := by
  have hspots := map_within_nil n
  refine ⟨within [] n, ?_, ?_, descendants_eq_preorder n, ?_, ?_⟩
  · intro other
    constructor
    · intro hother
      exact tours_unique hother (tours_start n)
    · intro heq
      subst heq
      exact tours_start n
  · rw [← map_snd_spots, ← hspots, List.map_map]
    rfl
  · intro place m
    have hmem : forall rest,
        (exists c, c ∈ within [] n ∧ c.place = rest ∧ c.focus = m) <-> n.at? rest = some m := by
      intro rest
      rw [← mem_spots_iff, ← hspots, List.mem_map]
      simp only [Prod.mk.injEq]
    constructor
    · intro h
      rcases h with ⟨c, hc, rfl, hfocus⟩
      refine ⟨List.prefix_append _ _, ?_⟩
      rw [at?_append hstart]
      exact (hmem c.place).mp ⟨c, hc, rfl, hfocus⟩
    · intro h
      rcases h with ⟨⟨rest, rfl⟩, hat⟩
      rw [at?_append hstart] at hat
      rcases (hmem rest).mpr hat with ⟨c, hc, rfl, hfocus⟩
      exact ⟨c, hc, rfl, hfocus⟩
  · have hordered := spots_ordered n
    rw [← hspots, List.pairwise_map] at hordered
    exact hordered

/-- A list with a button between two texts. -/
def buttonList : Node :=
  branch .jsxElement 1 [leaf .jsxText 1 "one",
    branch .jsxElement 2 [branch .jsxOpeningElement 2 [leaf .identifier 2 "Button"],
      leaf .jsxText 2 "two"],
    leaf .jsxText 3 "three"]

/-- The button alone. -/
def listedButton : Node :=
  branch .jsxElement 2 [branch .jsxOpeningElement 2 [leaf .identifier 2 "Button"],
    leaf .jsxText 2 "two"]

theorem tour_meets_subtree_buttonList :
    buttonList.at? [1] = some listedButton ∧
      exists tour, Tours (Cursor.start listedButton) tour ∧
        (tour.map Cursor.focus).map Node.text = ["", "", "Button", "two"] ∧
        forall c, c ∈ tour -> [1] ++ c.place ≠ [2] := by
  have hstart : buttonList.at? [1] = some listedButton := rfl
  rcases tour_meets_subtree buttonList listedButton [1] hstart with
    ⟨tour, htours, hfocus, _, hplaces, _⟩
  refine ⟨hstart, tour, (htours tour).mpr rfl, ?_, ?_⟩
  · rw [hfocus]
    rfl
  · intro c hc hplace
    have hbelow := ((hplaces [2] c.focus).mp ⟨c, hc, hplace, rfl⟩).left
    revert hbelow
    decide

end Node
end Syntax
end JsxUsage
