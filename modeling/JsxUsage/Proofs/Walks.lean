import JsxUsage.Adjacency
import Mathlib.Data.List.Nodup
import Mathlib.Data.Set.Basic
import Mathlib.Logic.Relation

/-!
# Walks along uses

A walk follows uses from a component.  It is told by positions, each of which picks
one use in the list of the component where the walk stands, so that two uses of one
component in a list give two walks.  Beside the relation stands a function that lists
the walks up to a length that come to no component twice.
-/

namespace JsxUsage

/-!
# Components up to spelling

Two spellings of a component have one name and one list of children.
-/

namespace ComponentId

theorem any_beq_congr {c d : ComponentId} (h : (c == d) = true) (way : List ComponentId) :
    way.any (· == c) = way.any (· == d) := by
  have heach : (fun x : ComponentId => x == c) = fun x => x == d := by
    funext x
    exact BEq.congr_right h
  rw [heach]

/-- If a relation does not tell spellings apart, then its walks do not either. -/
theorem transGen_congr {step : ComponentId -> ComponentId -> Prop}
    (hstep : forall {c c' d d' : ComponentId}, (c == c') = true -> (d == d') = true ->
      step c d -> step c' d') {c c' d d' : ComponentId} (hc : (c == c') = true)
    (hd : (d == d') = true) (h : Relation.TransGen step c d) : Relation.TransGen step c' d' := by
  have hfront : Relation.TransGen step c' d := by
    rcases Relation.TransGen.head'_iff.mp h with ⟨b, hfirst, hrest⟩
    exact Relation.TransGen.head' (hstep hc BEq.rfl hfirst) hrest
  rcases Relation.TransGen.tail'_iff.mp hfront with ⟨b, hrest, hlast⟩
  exact Relation.TransGen.tail' hrest (hstep BEq.rfl hd hlast)

end ComponentId

namespace Adjacency

theorem find_congr {c d : ComponentId} (h : (c == d) = true)
    (pairs : List (ComponentId × List ComponentId)) :
    Index.find c pairs = Index.find d pairs := by
  induction pairs with
  | nil => rfl
  | cons entry rest ih =>
      rw [Index.find, Index.find, ih, BEq.congr_right h]

theorem children_congr (a : Adjacency) {c d : ComponentId} (h : (c == d) = true) :
    a.children c = a.children d := by
  unfold children Index.get?
  rw [find_congr h]

/-!
# The walk relation

`Walk a c positions trail` says that the uses at `positions` lead from `c` through
the components `trail`, which do not include `c` itself.
-/

inductive Walk (a : Adjacency) : ComponentId -> List Nat -> List ComponentId -> Prop where
  | stay (c : ComponentId) : Walk a c [] []
  | use {c d : ComponentId} {k : Nat} {positions : List Nat} {trail : List ComponentId} :
      (a.children c)[k]? = some d ->
      Walk a d positions trail ->
      Walk a c (k :: positions) (d :: trail)

theorem walk_length {a : Adjacency} {c : ComponentId} {positions : List Nat}
    {trail : List ComponentId} (h : Walk a c positions trail) :
    trail.length = positions.length := by
  induction h with
  | stay c => rfl
  | use _ _ ih => rw [List.length_cons, List.length_cons, ih]

theorem walk_unique {a : Adjacency} {c : ComponentId} {positions : List Nat}
    {trail other : List ComponentId} (h : Walk a c positions trail)
    (hother : Walk a c positions other) : trail = other := by
  induction h generalizing other with
  | stay c =>
      cases hother
      rfl
  | use hstep _ ih =>
      cases hother with
      | use hstep' htail =>
          rw [hstep] at hstep'
          cases hstep'
          rw [ih htail]

theorem walk_append {a : Adjacency} {c : ComponentId} {positions later : List Nat}
    {trail ahead : List ComponentId} (h : Walk a c positions trail)
    (hlater : Walk a (trail.getLastD c) later ahead) :
    Walk a c (positions ++ later) (trail ++ ahead) := by
  induction h with
  | stay c => exact hlater
  | use hstep _ ih =>
      rw [List.getLastD_cons] at hlater
      exact Walk.use hstep (ih hlater)

theorem walk_split {a : Adjacency} {c : ComponentId} {positions : List Nat}
    {trail ahead : List ComponentId} (h : Walk a c positions (trail ++ ahead)) :
    exists front back, positions = front ++ back ∧ Walk a c front trail ∧
      Walk a (trail.getLastD c) back ahead := by
  induction trail generalizing c positions with
  | nil => exact ⟨[], positions, rfl, Walk.stay c, h⟩
  | cons d trail ih =>
      cases h with
      | use hstep htail =>
          rcases ih htail with ⟨front, back, rfl, hfront, hback⟩
          rw [List.getLastD_cons]
          exact ⟨_ :: front, back, rfl, Walk.use hstep hfront, hback⟩

theorem walk_snoc {a : Adjacency} {c d : ComponentId} {k : Nat} {positions : List Nat}
    {trail : List ComponentId} (h : Walk a c positions trail)
    (hstep : (a.children (trail.getLastD c))[k]? = some d) :
    Walk a c (positions ++ [k]) (trail ++ [d]) :=
  walk_append h (Walk.use hstep (Walk.stay d))

theorem walk_snoc_inv {a : Adjacency} {c d : ComponentId} {positions : List Nat}
    {trail : List ComponentId} (h : Walk a c positions (trail ++ [d])) :
    exists front k, positions = front ++ [k] ∧ Walk a c front trail ∧
      (a.children (trail.getLastD c))[k]? = some d := by
  rcases walk_split h with ⟨front, back, rfl, hfront, hback⟩
  cases hback with
  | use hstep htail =>
      cases htail
      exact ⟨front, _, rfl, hfront, hstep⟩

/-!
# Walks without repetition
-/

/-- No component comes twice. -/
def RepeatFree (components : List ComponentId) : Prop :=
  components.Pairwise fun c d => (c == d) = false

theorem repeatFree_snoc {components : List ComponentId} {c : ComponentId} :
    RepeatFree (components ++ [c]) <->
      RepeatFree components ∧ components.any (· == c) = false := by
  unfold RepeatFree
  rw [List.pairwise_append, List.any_eq_false]
  constructor
  · intro h
    refine ⟨h.left, ?_⟩
    intro x hx
    simpa using h.right.right x hx c (List.mem_singleton_self c)
  · intro h
    refine ⟨h.left, List.pairwise_singleton _ _, ?_⟩
    intro x hx y hy
    rw [List.mem_singleton.mp hy]
    simpa using h.right x hx

theorem repeatFree_cons {components : List ComponentId} {c : ComponentId} :
    RepeatFree (c :: components) <->
      (forall d, d ∈ components -> (c == d) = false) ∧ RepeatFree components :=
  List.pairwise_cons

/-- A walk from `root` that comes to no component twice, not to the root either. -/
def SimpleWalk (a : Adjacency) (root : ComponentId) (positions : List Nat) : Prop :=
  exists trail, Walk a root positions trail ∧ RepeatFree (root :: trail)

theorem walk_to_member {a : Adjacency} {c d : ComponentId} {positions : List Nat}
    {trail : List ComponentId} (h : Walk a c positions trail) (hd : d ∈ trail) :
    exists front between, front ≠ [] ∧ between ++ [d] <+: trail ∧
      Walk a c front (between ++ [d]) := by
  rcases List.append_of_mem hd with ⟨between, after, rfl⟩
  rw [List.append_cons] at h ⊢
  rcases walk_split h with ⟨front, _, _, hfront, _⟩
  refine ⟨front, between, ?_, List.prefix_append _ _, hfront⟩
  intro hnil
  subst hnil
  simpa using walk_length hfront

/-- No walk comes back to where it began. -/
def Acyclic (a : Adjacency) : Prop :=
  forall c positions trail, positions ≠ [] -> Walk a c positions trail ->
    (trail.getLastD c == c) = false

theorem leaves_of_acyclic {a : Adjacency} (hacyclic : Acyclic a) {c d : ComponentId}
    {positions : List Nat} {trail : List ComponentId} (h : Walk a c positions trail)
    (hd : d ∈ trail) : (c == d) = false := by
  rcases walk_to_member h hd with ⟨front, between, hne, _, hwalk⟩
  have haway := hacyclic c front _ hne hwalk
  rw [List.getLastD_concat] at haway
  rw [BEq.comm]
  exact haway

theorem repeatFree_of_acyclic {a : Adjacency} (hacyclic : Acyclic a) {c : ComponentId}
    {positions : List Nat} {trail : List ComponentId} (h : Walk a c positions trail) :
    RepeatFree (c :: trail) := by
  induction h with
  | stay c => exact List.pairwise_singleton _ _
  | use hstep hwalk ih =>
      refine repeatFree_cons.mpr ⟨?_, ih⟩
      intro e he
      exact leaves_of_acyclic hacyclic (Walk.use hstep hwalk) he

/-- The walks from `root` with at least one and at most `n` steps that come to no
component twice. -/
def simpleWalks (a : Adjacency) (n : Nat) (root : ComponentId) : Set (List Nat) :=
  {positions | positions ≠ [] ∧ positions.length ≤ n ∧ SimpleWalk a root positions}

/-- Those of the walks that lead to `c`. -/
def simpleWalksTo (a : Adjacency) (n : Nat) (root c : ComponentId) : Set (List Nat) :=
  {positions | positions ∈ simpleWalks a n root ∧
    exists trail, Walk a root positions trail ∧ (trail.getLastD root == c) = true}

/-- The paths from `root`, each with one use in the list of the component it leads to. -/
def traversals (a : Adjacency) (root : ComponentId) : Set (List Nat × Nat) :=
  {step | exists trail, Walk a root step.1 trail ∧
    step.2 < (a.children (trail.getLastD root)).length}

/-!
# Where walks lead

A component that some walk leads to can be reached without repetition: a walk that
comes to a component again is cut where it came there first.
-/

/-- The component `c` uses `d`. -/
def Uses (a : Adjacency) (c d : ComponentId) : Prop :=
  exists child, child ∈ a.children c ∧ (child == d) = true

/-- Uses lead from `c` to `d`, or the two are the same. -/
def Reaches (a : Adjacency) (c d : ComponentId) : Prop :=
  (c == d) = true ∨ Relation.TransGen a.Uses c d

theorem uses_congr {a : Adjacency} {c c' d d' : ComponentId} (hc : (c == c') = true)
    (hd : (d == d') = true) (h : a.Uses c d) : a.Uses c' d' := by
  rcases h with ⟨child, hchild, hsame⟩
  rw [children_congr a hc] at hchild
  exact ⟨child, hchild, BEq.trans hsame hd⟩

theorem leads_congr {a : Adjacency} {c c' d d' : ComponentId} (hc : (c == c') = true)
    (hd : (d == d') = true) (h : Relation.TransGen a.Uses c d) :
    Relation.TransGen a.Uses c' d' :=
  ComponentId.transGen_congr uses_congr hc hd h

theorem reaches_congr {a : Adjacency} {c d d' : ComponentId} (hd : (d == d') = true)
    (h : a.Reaches c d) : a.Reaches c d' := by
  rcases h with hsame | hleads
  · exact Or.inl (BEq.trans hsame hd)
  · exact Or.inr (leads_congr BEq.rfl hd hleads)

theorem reflTransGen_of_walk {a : Adjacency} {c : ComponentId} {positions : List Nat}
    {trail : List ComponentId} (h : Walk a c positions trail) :
    Relation.ReflTransGen a.Uses c (trail.getLastD c) := by
  induction h with
  | stay c => exact Relation.ReflTransGen.refl
  | use hstep _ ih =>
      rw [List.getLastD_cons]
      exact Relation.ReflTransGen.head ⟨_, List.mem_of_getElem? hstep, BEq.rfl⟩ ih

theorem leads_of_walk {a : Adjacency} {c : ComponentId} {positions : List Nat}
    {trail : List ComponentId} (h : Walk a c positions trail) (hne : positions ≠ []) :
    Relation.TransGen a.Uses c (trail.getLastD c) := by
  cases h with
  | stay => exact absurd rfl hne
  | use hstep hwalk =>
      rw [List.getLastD_cons]
      exact Relation.TransGen.head' ⟨_, List.mem_of_getElem? hstep, BEq.rfl⟩
        (reflTransGen_of_walk hwalk)

theorem getLastD_append (trail ahead : List ComponentId) (c : ComponentId) :
    (trail ++ ahead).getLastD c = ahead.getLastD (trail.getLastD c) := by
  induction trail generalizing c with
  | nil => rfl
  | cons d trail ih => rw [List.cons_append, List.getLastD_cons, List.getLastD_cons, ih]

theorem walk_from_member {a : Adjacency} {c d : ComponentId} {positions : List Nat}
    {trail front back : List ComponentId} (h : Walk a c positions trail)
    (hway : c :: trail = front ++ d :: back) :
    a.Reaches c d ∧ trail.getLastD c = back.getLastD d ∧ exists later, Walk a d later back := by
  cases front with
  | nil =>
      rcases List.cons.inj hway with ⟨rfl, rfl⟩
      exact ⟨Or.inl BEq.rfl, rfl, positions, h⟩
  | cons c' front =>
      rw [List.cons_append] at hway
      rcases List.cons.inj hway with ⟨rfl, rfl⟩
      rw [List.append_cons] at h ⊢
      rcases walk_split h with ⟨steps, later, _, hfront, hlater⟩
      have hne : steps ≠ [] := by
        intro hnil
        subst hnil
        simpa using walk_length hfront
      have hleads := leads_of_walk hfront hne
      rw [List.getLastD_concat] at hleads hlater
      rw [getLastD_append, List.getLastD_concat]
      exact ⟨Or.inr hleads, rfl, later, hlater⟩

/-!
Components that lead to each other use each other in a circle, and every walk that
comes back to its start goes through such components only.
-/

/-- Uses lead from each of two components to the other. -/
def Mutual (a : Adjacency) (c d : ComponentId) : Prop :=
  Relation.TransGen a.Uses c d ∧ Relation.TransGen a.Uses d c

theorem mutual_congr {a : Adjacency} {c c' d d' : ComponentId} (hc : (c == c') = true)
    (hd : (d == d') = true) (h : a.Mutual c d) : a.Mutual c' d' :=
  ⟨leads_congr hc hd h.left, leads_congr hd hc h.right⟩

theorem mutual_of_walk {a : Adjacency} {c d : ComponentId} {positions : List Nat}
    {trail : List ComponentId} (h : Walk a c positions trail)
    (hback : a.Uses (trail.getLastD c) c) (hd : d ∈ c :: trail) : a.Mutual c d := by
  have hround := Relation.TransGen.tail' (reflTransGen_of_walk h) hback
  rcases List.append_of_mem hd with ⟨front, after, hway⟩
  rcases walk_from_member h hway with ⟨hreaches, hlast, later, hlater⟩
  rw [hlast] at hback
  refine ⟨?_, Relation.TransGen.tail' (reflTransGen_of_walk hlater) hback⟩
  rcases hreaches with hsame | hleads
  · exact leads_congr BEq.rfl hsame hround
  · exact hleads

/-- From a component on a circle a use leads on to a component of the same circle. -/
theorem mutual_next {a : Adjacency} {c d : ComponentId} (h : a.Mutual c d) :
    exists e, e ∈ a.children d ∧ a.Mutual c e := by
  rcases Relation.TransGen.head'_iff.mp h.right with ⟨e, ⟨child, hchild, hsame⟩, hrest⟩
  have hround := h.left.trans h.right
  have hto : Relation.TransGen a.Uses c child := h.left.tail ⟨child, hchild, BEq.rfl⟩
  have hfro : Relation.TransGen a.Uses e c := Relation.TransGen.trans_right hrest hround
  exact ⟨child, hchild, hto, leads_congr (BEq.symm hsame) BEq.rfl hfro⟩

/-- A walk without repetition leads from `root` to `c`. -/
def SimplyReaches (a : Adjacency) (root c : ComponentId) : Prop :=
  exists positions trail, Walk a root positions trail ∧ RepeatFree (root :: trail) ∧
    (trail.getLastD root == c) = true

theorem simplyReaches_self (a : Adjacency) {root c : ComponentId} (h : (root == c) = true) :
    SimplyReaches a root c :=
  ⟨[], [], Walk.stay root, List.pairwise_singleton _ _, h⟩

theorem simplyReaches_step {a : Adjacency} {root c d : ComponentId}
    (h : SimplyReaches a root c) (huses : a.Uses c d) : SimplyReaches a root d := by
  rcases h with ⟨positions, trail, hwalk, hfree, hlast⟩
  rcases uses_congr (BEq.symm hlast) BEq.rfl huses with ⟨child, hchild, hsame⟩
  rcases List.mem_iff_getElem?.mp hchild with ⟨k, hstep⟩
  cases hon : (root :: trail).any (· == child) with
  | false =>
      refine ⟨_, _, walk_snoc hwalk hstep, repeatFree_snoc.mpr ⟨hfree, hon⟩, ?_⟩
      rw [List.getLastD_concat]
      exact hsame
  | true =>
      rcases List.any_eq_true.mp hon with ⟨x, hx, hxchild⟩
      rcases List.mem_cons.mp hx with rfl | hx
      · exact simplyReaches_self a (BEq.trans hxchild hsame)
      · rcases walk_to_member hwalk hx with ⟨front, between, _, hbegin, hfront⟩
        refine ⟨front, _, hfront, hfree.sublist (hbegin.sublist.cons_cons root), ?_⟩
        rw [List.getLastD_concat]
        exact BEq.trans hxchild hsame

theorem simplyReaches_of_reaches {a : Adjacency} {root c : ComponentId} (h : a.Reaches root c) :
    SimplyReaches a root c := by
  rcases h with hsame | hleads
  · exact simplyReaches_self a hsame
  · induction hleads with
    | single huses => exact simplyReaches_step (simplyReaches_self a BEq.rfl) huses
    | tail _ huses ih => exact simplyReaches_step ih huses

/-!
# Listing walks

The list goes down one level for each step of a walk.  It comes to a walk before it
comes to the longer walks that begin with it, and it takes the uses of a component in
their order.
-/

/-- The walks of at least one and at most `n` steps that begin at `last` and come to
no component twice and to none on the way.  The positions `before` lead to `last`
and are put in front. -/
def walks (a : Adjacency) : (n : Nat) -> (way : List ComponentId) -> (before : List Nat) ->
    (last : ComponentId) -> List (List Nat)
  | 0, _, _, _ => []
  | n + 1, way, before, last =>
      (a.children last).zipIdx.flatMap fun use =>
        if way.any (· == use.1) then []
        else (before ++ [use.2]) :: walks a n (way ++ [use.1]) (before ++ [use.2]) use.1

/-- The part of the list that begins with one use. -/
def walksThrough (a : Adjacency) (n : Nat) (way : List ComponentId) (before : List Nat)
    (use : ComponentId × Nat) : List (List Nat) :=
  if way.any (· == use.1) then []
  else (before ++ [use.2]) :: walks a n (way ++ [use.1]) (before ++ [use.2]) use.1

theorem walks_succ (a : Adjacency) (n : Nat) (way : List ComponentId) (before : List Nat)
    (last : ComponentId) :
    walks a (n + 1) way before last =
      (a.children last).zipIdx.flatMap (walksThrough a n way before) := rfl

theorem walksThrough_cyclic {a : Adjacency} {way : List ComponentId} {c : ComponentId}
    (hon : way.any (· == c) = true) (n : Nat) (before : List Nat) (k : Nat) :
    walksThrough a n way before (c, k) = [] :=
  if_pos hon

theorem walksThrough_new {a : Adjacency} {way : List ComponentId} {c : ComponentId}
    (hnew : way.any (· == c) = false) (n : Nat) (before : List Nat) (k : Nat) :
    walksThrough a n way before (c, k) =
      (before ++ [k]) :: walks a n (way ++ [c]) (before ++ [k]) c :=
  if_neg (Bool.eq_false_iff.mp hnew)

theorem walks_of_isEmpty {a : Adjacency} {last : ComponentId}
    (h : (a.children last).isEmpty = true) (n : Nat) (way : List ComponentId)
    (before : List Nat) : walks a n way before last = [] := by
  cases n with
  | zero => rfl
  | succ n => rw [walks_succ, List.isEmpty_iff.mp h, List.zipIdx_nil, List.flatMap_nil]

/-!
The list is sound and complete for walks without repetition.  Both directions go by
induction on the number of steps, which peels off the first use.
-/

theorem mem_walks {a : Adjacency} {n : Nat} {way : List ComponentId} {before : List Nat}
    {last : ComponentId} {positions : List Nat} :
    positions ∈ walks a n way before last <->
      exists steps trail, positions = before ++ steps ∧ steps ≠ [] ∧ steps.length ≤ n ∧
        Walk a last steps trail ∧ RepeatFree trail ∧
        forall c, c ∈ trail -> way.any (· == c) = false := by
  induction n generalizing way before last positions with
  | zero =>
      constructor
      · intro h
        cases h
      · intro h
        rcases h with ⟨steps, trail, _, hne, hlength, _⟩
        exact absurd (List.length_eq_zero_iff.mp (Nat.le_zero.mp hlength)) hne
  | succ n ih =>
      rw [walks_succ, List.mem_flatMap]
      constructor
      · intro h
        rcases h with ⟨⟨c, k⟩, huse, hmem⟩
        have hstep : (a.children last)[k]? = some c := List.mem_zipIdx_iff_getElem?.mp huse
        cases hon : way.any (· == c) with
        | true =>
            rw [walksThrough_cyclic hon] at hmem
            cases hmem
        | false =>
            rw [walksThrough_new hon] at hmem
            rcases List.mem_cons.mp hmem with hhere | hbelow
            · refine ⟨[k], [c], hhere, List.cons_ne_nil _ _, Nat.le_add_left 1 n,
                Walk.use hstep (Walk.stay c), List.pairwise_singleton _ _, ?_⟩
              intro d hd
              rw [List.mem_singleton.mp hd]
              exact hon
            · rcases ih.mp hbelow with ⟨steps, trail, hpositions, _, hlength, hwalk, hfree, hoff⟩
              refine ⟨k :: steps, c :: trail, ?_, List.cons_ne_nil _ _, Nat.succ_le_succ hlength,
                Walk.use hstep hwalk, ?_, ?_⟩
              · rw [hpositions, List.append_assoc, List.singleton_append]
              · refine repeatFree_cons.mpr ⟨?_, hfree⟩
                intro d hd
                have hnot := hoff d hd
                simp only [List.any_append, Bool.or_eq_false_iff] at hnot
                simpa using hnot.right
              · intro d hd
                rcases List.mem_cons.mp hd with rfl | hd
                · exact hon
                · have hnot := hoff d hd
                  simp only [List.any_append, Bool.or_eq_false_iff] at hnot
                  exact hnot.left
      · intro h
        rcases h with ⟨steps, trail, hpositions, hne, hlength, hwalk, hfree, hoff⟩
        cases hwalk with
        | stay => exact absurd rfl hne
        | @use _ c k steps trail hstep hwalk =>
            have hon : way.any (· == c) = false := hoff c List.mem_cons_self
            rcases repeatFree_cons.mp hfree with ⟨hnew, hfree⟩
            refine ⟨(c, k), List.mem_zipIdx_iff_getElem?.mpr hstep, ?_⟩
            rw [walksThrough_new hon, List.mem_cons]
            cases steps with
            | nil => exact Or.inl hpositions
            | cons k' steps =>
                refine Or.inr (ih.mpr ⟨k' :: steps, trail, ?_, List.cons_ne_nil _ _,
                  Nat.le_of_succ_le_succ hlength, hwalk, hfree, ?_⟩)
                · rw [hpositions, List.append_assoc, List.singleton_append]
                · intro d hd
                  rw [List.any_append, hoff d (List.mem_cons_of_mem _ hd)]
                  simpa using hnew d hd

theorem mem_walks_root {a : Adjacency} {n : Nat} {root : ComponentId} {positions : List Nat} :
    positions ∈ walks a n [root] [] root <-> positions ∈ simpleWalks a n root := by
  rw [mem_walks]
  constructor
  · intro h
    rcases h with ⟨steps, trail, rfl, hne, hlength, hwalk, hfree, hoff⟩
    refine ⟨hne, hlength, trail, hwalk, repeatFree_cons.mpr ⟨?_, hfree⟩⟩
    intro d hd
    simpa using hoff d hd
  · intro h
    rcases h with ⟨hne, hlength, trail, hwalk, hfree⟩
    rcases repeatFree_cons.mp hfree with ⟨hnew, hfree⟩
    refine ⟨positions, trail, rfl, hne, hlength, hwalk, hfree, ?_⟩
    intro d hd
    simpa using hnew d hd

/-!
The walks through different uses differ where the uses do.
-/

theorem prefix_of_mem_walksThrough {a : Adjacency} {n : Nat} {way : List ComponentId}
    {before : List Nat} {use : ComponentId × Nat} {positions : List Nat}
    (h : positions ∈ walksThrough a n way before use) : before ++ [use.2] <+: positions := by
  rcases use with ⟨c, k⟩
  cases hon : way.any (· == c) with
  | true =>
      rw [walksThrough_cyclic hon] at h
      cases h
  | false =>
      rw [walksThrough_new hon] at h
      rcases List.mem_cons.mp h with rfl | hbelow
      · exact List.prefix_refl _
      · rcases mem_walks.mp hbelow with ⟨steps, _, rfl, _⟩
        exact List.prefix_append _ _

theorem walks_nodup (a : Adjacency) (n : Nat) (way : List ComponentId) (before : List Nat)
    (last : ComponentId) : (walks a n way before last).Nodup := by
  induction n generalizing way before last with
  | zero => exact List.nodup_nil
  | succ n ih =>
      rw [walks_succ, List.nodup_flatMap]
      constructor
      · intro h _
        rcases h with ⟨c, k⟩
        cases hon : way.any (· == c) with
        | true =>
            rw [walksThrough_cyclic hon]
            exact List.nodup_nil
        | false =>
            rw [walksThrough_new hon]
            refine List.nodup_cons.mpr ⟨?_, ih _ _ _⟩
            intro hmem
            rcases mem_walks.mp hmem with ⟨steps, _, hself, hne, _⟩
            exact hne (List.self_eq_append_right.mp hself)
      · have hpositions : (a.children last).zipIdx.Pairwise fun x y => x.2 ≠ y.2 := by
          rw [← List.pairwise_map, List.zipIdx_map_snd]
          exact List.nodup_range'
        refine hpositions.imp ?_
        intro x y hxy positions hx hy
        have hlength : (before ++ [x.2]).length = (before ++ [y.2]).length := by simp
        have hsame := List.IsPrefix.eq_of_length
          (List.prefix_of_prefix_length_le (prefix_of_mem_walksThrough hx)
            (prefix_of_mem_walksThrough hy) (Nat.le_of_eq hlength)) hlength
        simp at hsame
        exact hxy hsame

end Adjacency
end JsxUsage
