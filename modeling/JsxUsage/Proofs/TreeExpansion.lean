import JsxUsage.ComponentTree.Expansion

/-!
# The tree loop and the recursive expansion

The loop keeps the waiting uses of all levels on one stack, and it finds the way
to a use through the parents of the nodes that are already placed.  The expansion
keeps one list of uses for each level and hands the way down.  This module proves
that both place the same nodes and report the same diagnostics, in the same
order, and that the rounds of the loop are enough.
-/

namespace JsxUsage
namespace ComponentTree

open TreeBuilder

/-!
# Rules of the expansion

The relation reads the recursion as a set of rules, one for each thing that can
become of the first use in a list.  Facts about expanded trees are proved by
induction on these rules.
-/

inductive Expands (a : Adjacency) (maxDepth : Nat) :
    List ComponentId -> Option Nat -> Nat -> List ComponentId ->
      ComponentTree -> ComponentTree -> Prop where
  | done {way : List ComponentId} {parent : Option Nat} {depth : Nat} {t : ComponentTree} :
      Expands a maxDepth way parent depth [] t t
  | cyclic {way : List ComponentId} {parent : Option Nat} {depth : Nat}
      {child : ComponentId} {rest : List ComponentId} {t u : ComponentTree} :
      way.any (· == child) = true ->
      Expands a maxDepth way parent depth rest (report t (closing way child)) u ->
      Expands a maxDepth way parent depth (child :: rest) t u
  | leaf {way : List ComponentId} {parent : Option Nat} {depth : Nat}
      {child : ComponentId} {rest : List ComponentId} {t u : ComponentTree} :
      way.any (· == child) = false ->
      (a.children child).isEmpty = true ->
      Expands a maxDepth way parent depth rest (place t child parent depth) u ->
      Expands a maxDepth way parent depth (child :: rest) t u
  | limited {way : List ComponentId} {parent : Option Nat} {depth : Nat}
      {child : ComponentId} {rest : List ComponentId} {t u : ComponentTree} :
      way.any (· == child) = false ->
      (a.children child).isEmpty = false ->
      maxDepth ≤ depth ->
      Expands a maxDepth way parent depth rest
        (report (place t child parent depth) (.depthLimit child.name depth)) u ->
      Expands a maxDepth way parent depth (child :: rest) t u
  | inner {way : List ComponentId} {parent : Option Nat} {depth : Nat}
      {child : ComponentId} {rest : List ComponentId} {t below u : ComponentTree} :
      way.any (· == child) = false ->
      (a.children child).isEmpty = false ->
      depth < maxDepth ->
      Expands a maxDepth (way ++ [child]) (some t.nodes.size) (depth + 1)
        (a.children child) (place t child parent depth) below ->
      Expands a maxDepth way parent depth rest below u ->
      Expands a maxDepth way parent depth (child :: rest) t u

theorem expands_expand (a : Adjacency) (maxDepth : Nat) (way : List ComponentId)
    (parent : Option Nat) (depth : Nat) (children : List ComponentId) (t : ComponentTree) :
    Expands a maxDepth way parent depth children t
      (expand a maxDepth way parent depth children t) := by
  induction way, parent, depth, children, t using expand.induct a maxDepth with
  | case1 way parent depth t =>
      rw [expand]
      exact Expands.done
  | case2 way parent depth child rest t hon ih =>
      rw [expand, dif_pos hon]
      exact Expands.cyclic hon ih
  | case3 way parent depth child rest t hoff position grown below hinner _ hrest =>
      have hexpand : expand a maxDepth way parent depth (child :: rest) t =
          expand a maxDepth way parent depth rest below := by
        rw [expand, dif_neg hoff]
        rfl
      have hnew : way.any (· == child) = false := by simpa using hoff
      rw [hexpand]
      by_cases hempty : (a.children child).isEmpty = true
      · have hbelow : below = grown := dif_pos hempty
        rw [hbelow] at hrest ⊢
        exact Expands.leaf hnew hempty hrest
      · have hparental : (a.children child).isEmpty = false := by simpa using hempty
        by_cases hdepth : maxDepth ≤ depth
        · have hbelow : below = report grown (.depthLimit child.name depth) := by
            simp only [below, dif_neg hempty, dif_pos hdepth]
            rfl
          rw [hbelow] at hrest ⊢
          exact Expands.limited hnew hparental hdepth hrest
        · have hbelow : below = expand a maxDepth (way ++ [child]) (some position)
              (depth + 1) (a.children child) grown := by
            simp only [below, dif_neg hempty, dif_neg hdepth]
          rw [hbelow] at hrest ⊢
          exact Expands.inner hnew hparental (Nat.lt_of_not_le hdepth) (hinner hempty) hrest

/-!
# What an expansion keeps

An expansion only appends nodes, so the way to a node that is already placed stays
what it was.
-/

theorem expands_root {a : Adjacency} {maxDepth : Nat} {way : List ComponentId}
    {parent : Option Nat} {depth : Nat} {children : List ComponentId} {t u : ComponentTree}
    (h : Expands a maxDepth way parent depth children t u) : u.root = t.root := by
  induction h with
  | done => rfl
  | cyclic _ _ ih => exact ih
  | leaf _ _ _ ih => exact ih
  | limited _ _ _ _ ih => exact ih
  | inner _ _ _ _ _ ihBelow ihRest => exact ihRest.trans ihBelow

/-- `u` has the nodes of `t` and further ones, below `parent` or below each other. -/
def Appends (parent : Option Nat) (t u : ComponentTree) : Prop :=
  exists added, u.nodes = t.nodes ++ added ∧
    forall n, n ∈ added -> n.parent = parent ∨ exists p, n.parent = some p ∧ t.nodes.size ≤ p

theorem appends_place (t : ComponentTree) (child : ComponentId) (parent : Option Nat)
    (depth : Nat) : Appends parent t (place t child parent depth) := by
  refine ⟨#[⟨t.nodes.size, child, parent, depth⟩], Array.push_eq_append, ?_⟩
  intro n hn
  rw [Array.mem_singleton.mp hn]
  exact Or.inl rfl

theorem appends_trans {parent next : Option Nat} {t u v : ComponentTree}
    (htu : Appends parent t u) (huv : Appends next u v)
    (hnext : next = parent ∨ exists p, next = some p ∧ t.nodes.size ≤ p) :
    Appends parent t v := by
  rcases htu with ⟨first, hfirst, hfirstParent⟩
  rcases huv with ⟨second, hsecond, hsecondParent⟩
  refine ⟨first ++ second, by rw [hsecond, hfirst, Array.append_assoc], ?_⟩
  intro n hn
  rcases Array.mem_append.mp hn with hn | hn
  · exact hfirstParent n hn
  · rcases hsecondParent n hn with hself | ⟨p, hp, hle⟩
    · rw [hself]
      exact hnext
    · rw [hfirst, Array.size_append] at hle
      exact Or.inr ⟨p, hp, Nat.le_trans (Nat.le_add_right _ _) hle⟩

theorem expands_appends {a : Adjacency} {maxDepth : Nat} {way : List ComponentId}
    {parent : Option Nat} {depth : Nat} {children : List ComponentId} {t u : ComponentTree}
    (h : Expands a maxDepth way parent depth children t u) : Appends parent t u := by
  induction h with
  | done => exact ⟨#[], by simp, by simp⟩
  | cyclic _ _ ih => exact ih
  | leaf _ _ _ ih => exact appends_trans (appends_place _ _ _ _) ih (Or.inl rfl)
  | limited _ _ _ _ ih => exact appends_trans (appends_place _ _ _ _) ih (Or.inl rfl)
  | @inner _ parent depth child _ t _ _ _ _ _ _ _ ihBelow ihRest =>
      have hplace := appends_place t child parent depth
      have hbelow := appends_trans hplace ihBelow (Or.inr ⟨t.nodes.size, rfl, Nat.le_refl _⟩)
      exact appends_trans hbelow ihRest (Or.inl rfl)

theorem expands_nodes {a : Adjacency} {maxDepth : Nat} {way : List ComponentId}
    {parent : Option Nat} {depth : Nat} {children : List ComponentId} {t u : ComponentTree}
    (h : Expands a maxDepth way parent depth children t u) :
    exists added, u.nodes = t.nodes ++ added := by
  rcases expands_appends h with ⟨added, hadded, _⟩
  exact ⟨added, hadded⟩

theorem lineage_of_node {nodes : Array TreeNode} {position : Nat} {n : TreeNode}
    (hnode : nodes[position]? = some n) (hparent : forall p, n.parent = some p -> p < position) :
    lineage nodes position = lineageOf nodes n.parent ++ [n.component] := by
  rw [lineage, hnode]
  cases hcase : n.parent with
  | none => simp only [hcase, lineageOf, List.nil_append]
  | some p => simp only [hcase, if_pos (hparent p hcase), lineageOf]

theorem lineage_append (nodes added : Array TreeNode) {position : Nat}
    (hposition : position < nodes.size) :
    lineage (nodes ++ added) position = lineage nodes position := by
  induction position using Nat.strongRecOn with
  | ind position ih =>
      have hnode : (nodes ++ added)[position]? = nodes[position]? :=
        Array.getElem?_append_left hposition
      rw [lineage, lineage, hnode]
      cases nodes[position]? with
      | none => rfl
      | some n =>
          cases hparent : n.parent with
          | none => simp only [hparent]
          | some p =>
              by_cases hp : p < position
              · simp only [hparent, if_pos hp]
                rw [ih p hp (Nat.lt_trans hp hposition)]
              · simp only [hparent, if_neg hp]

/-!
The way to a parent is read off the tree.  It stays right while the tree grows,
and a node that is placed below the parent continues it.
-/

/-- The parent, if any, is placed, and `way` are the components from the root to it. -/
def LeadsTo (t : ComponentTree) (parent : Option Nat) (way : List ComponentId) : Prop :=
  (forall p, parent = some p -> p < t.nodes.size) ∧ way = t.root :: lineageOf t.nodes parent

theorem leadsTo_root (root : ComponentId) : LeadsTo ⟨root, #[], #[]⟩ none [root] := by
  constructor
  · intro p hp
    cases hp
  · rfl

theorem leadsTo_grow {t u : ComponentTree} {parent : Option Nat} {way : List ComponentId}
    (h : LeadsTo t parent way) (hroot : u.root = t.root)
    (hnodes : exists added, u.nodes = t.nodes ++ added) : LeadsTo u parent way := by
  rcases h with ⟨hplaced, hway⟩
  rcases hnodes with ⟨added, hadded⟩
  constructor
  · intro p hp
    rw [hadded, Array.size_append]
    exact Nat.lt_of_lt_of_le (hplaced p hp) (Nat.le_add_right _ _)
  · rw [hway, hroot, hadded]
    cases parent with
    | none => rfl
    | some p =>
        simp only [lineageOf]
        rw [lineage_append t.nodes added (hplaced p rfl)]

theorem leadsTo_place {t : ComponentTree} {parent : Option Nat} {way : List ComponentId}
    (h : LeadsTo t parent way) (child : ComponentId) (depth : Nat) :
    LeadsTo (place t child parent depth) parent way :=
  leadsTo_grow h rfl ⟨_, Array.push_eq_append⟩

theorem lineage_place {t : ComponentTree} {parent : Option Nat}
    (hplaced : forall p, parent = some p -> p < t.nodes.size)
    (child : ComponentId) (depth : Nat) :
    lineage (place t child parent depth).nodes t.nodes.size =
      lineageOf t.nodes parent ++ [child] := by
  have hnode : (place t child parent depth).nodes[t.nodes.size]? =
      some ⟨t.nodes.size, child, parent, depth⟩ := Array.getElem?_push_size
  rw [lineage_of_node hnode hplaced]
  cases parent with
  | none => rfl
  | some p =>
      simp only [lineageOf]
      rw [place, Array.push_eq_append, lineage_append _ _ (hplaced p rfl)]

theorem leadsTo_enter {t : ComponentTree} {parent : Option Nat} {way : List ComponentId}
    (h : LeadsTo t parent way) (child : ComponentId) (depth : Nat) :
    LeadsTo (place t child parent depth) (some t.nodes.size) (way ++ [child]) := by
  constructor
  · intro p hp
    cases hp
    simp [place]
  · rw [h.right]
    simp only [lineageOf]
    rw [lineage_place h.left]
    rfl

end ComponentTree

/-!
# Rounds of the loop

A run of `n` rounds is judged by what any further rounds make of it.  This way
runs compose, and the rounds that are left over at the end do no harm.
-/

namespace TreeBuilder

open ComponentTree

/-- After `n` rounds the loop has come from `b` to `c`. -/
def Runs (a : Adjacency) (maxDepth n : Nat) (b c : TreeBuilder) : Prop :=
  forall more, b.loop a maxDepth (n + more) = c.loop a maxDepth more

theorem runs_refl (a : Adjacency) (maxDepth : Nat) (b : TreeBuilder) :
    Runs a maxDepth 0 b b := by
  intro more
  rw [Nat.zero_add]

theorem runs_trans {a : Adjacency} {maxDepth m n : Nat} {b c d : TreeBuilder}
    (hbc : Runs a maxDepth m b c) (hcd : Runs a maxDepth n c d) :
    Runs a maxDepth (m + n) b d := by
  intro more
  rw [Nat.add_assoc, hbc, hcd]

theorem runs_step (a : Adjacency) (maxDepth : Nat) (t : ComponentTree) (use : PendingUse)
    (rest : List PendingUse) :
    Runs a maxDepth 1 ⟨t, use :: rest⟩ (step a maxDepth ⟨t, use :: rest⟩ use rest) := by
  intro more
  rw [Nat.add_comm]
  rfl

theorem loop_empty (a : Adjacency) (maxDepth n : Nat) (t : ComponentTree) :
    loop a maxDepth n ⟨t, []⟩ = ⟨t, []⟩ := by
  cases n with
  | zero => rfl
  | succ n => rfl

theorem loop_add (a : Adjacency) (maxDepth m n : Nat) (b : TreeBuilder) :
    b.loop a maxDepth (m + n) = (b.loop a maxDepth m).loop a maxDepth n := by
  induction m generalizing b with
  | zero => rw [Nat.zero_add, loop]
  | succ m ih =>
      cases b with
      | mk t stack =>
          cases stack with
          | nil => rw [loop_empty, loop_empty, loop_empty]
          | cons use rest =>
              rw [Nat.succ_add]
              exact ih _

/-!
Each rule of the expansion begins with one round of the loop.
-/

section Rules

variable {a : Adjacency} {maxDepth depth : Nat} {t : ComponentTree} {parent : Option Nat}
variable {way : List ComponentId} {child : ComponentId}

theorem step_cyclic (hleads : LeadsTo t parent way) (hon : way.any (· == child) = true)
    (stack rest : List PendingUse) :
    step a maxDepth ⟨t, stack⟩ ⟨parent, child, depth⟩ rest =
      ⟨report t (closing way child), rest⟩ := by
  rw [hleads.right] at hon ⊢
  exact if_pos hon

theorem not_on_way (hleads : LeadsTo t parent way) (hnew : way.any (· == child) = false)
    (stack : List PendingUse) : (wayTo ⟨t, stack⟩ parent).any (· == child) ≠ true := by
  rw [hleads.right] at hnew
  exact Bool.eq_false_iff.mp hnew

theorem step_leaf (hleads : LeadsTo t parent way) (hnew : way.any (· == child) = false)
    (hempty : (a.children child).isEmpty = true) (stack rest : List PendingUse) :
    step a maxDepth ⟨t, stack⟩ ⟨parent, child, depth⟩ rest =
      ⟨place t child parent depth, rest⟩ := by
  simp only [step, if_neg (not_on_way hleads hnew stack), if_pos hempty]

theorem step_limited (hleads : LeadsTo t parent way) (hnew : way.any (· == child) = false)
    (hparental : (a.children child).isEmpty = false) (hdepth : maxDepth ≤ depth)
    (stack rest : List PendingUse) :
    step a maxDepth ⟨t, stack⟩ ⟨parent, child, depth⟩ rest =
      ⟨report (place t child parent depth) (.depthLimit child.name depth), rest⟩ := by
  simp only [step, if_neg (not_on_way hleads hnew stack),
    if_neg (Bool.eq_false_iff.mp hparental), if_pos hdepth]

theorem step_inner (hleads : LeadsTo t parent way) (hnew : way.any (· == child) = false)
    (hparental : (a.children child).isEmpty = false) (hdepth : depth < maxDepth)
    (stack rest : List PendingUse) :
    step a maxDepth ⟨t, stack⟩ ⟨parent, child, depth⟩ rest =
      ⟨place t child parent depth,
        pending (some t.nodes.size) (depth + 1) (a.children child) ++ rest⟩ := by
  simp only [step, if_neg (not_on_way hleads hnew stack),
    if_neg (Bool.eq_false_iff.mp hparental), if_neg (Nat.not_le_of_lt hdepth)]

end Rules

/-!
# How many rounds are enough

A use takes one round for itself and the rounds of the uses below it.  Below a use
one entry less is unused, and no use has more uses below it than the longest list
is long.
-/

theorem rounds_mono (w : Nat) {m n : Nat} (h : m ≤ n) : rounds w m ≤ rounds w n := by
  induction n generalizing m with
  | zero =>
      cases Nat.le_zero.mp h
      exact Nat.le_refl _
  | succ n ih =>
      cases m with
      | zero => exact Nat.le_add_right 1 _
      | succ m =>
          have hle : rounds w m ≤ rounds w n := ih (Nat.le_of_succ_le_succ h)
          exact Nat.add_le_add_left (Nat.mul_le_mul_left w hle) 1

theorem one_le_rounds (w n : Nat) : 1 ≤ rounds w n := by
  cases n with
  | zero => exact Nat.le_refl 1
  | succ n => exact Nat.le_add_right 1 _

theorem le_foldl_max (lengths : List Nat) (start : Nat) :
    start ≤ lengths.foldl max start ∧ forall n, n ∈ lengths -> n ≤ lengths.foldl max start := by
  induction lengths generalizing start with
  | nil => simp
  | cons n rest ih =>
      rcases ih (max start n) with ⟨hstart, hrest⟩
      constructor
      · exact Nat.le_trans (Nat.le_max_left start n) hstart
      · intro m hm
        rcases List.mem_cons.mp hm with rfl | hm
        · exact Nat.le_trans (Nat.le_max_right start m) hstart
        · exact hrest m hm

theorem children_length_le_width (a : Adjacency) (id : ComponentId) :
    (a.children id).length ≤ width a := by
  unfold Adjacency.children Index.get?
  cases hfind : Index.find id a.lists.pairs with
  | none => exact Nat.zero_le _
  | some children =>
      rcases Index.mem_of_find hfind with ⟨key, hmem, _⟩
      exact (le_foldl_max _ 0).right _ (List.mem_map.mpr ⟨(key, children), hmem, rfl⟩)

/-- The uses below a component fit into what the component itself may take. -/
theorem children_rounds_le {a : Adjacency} {way : List ComponentId} {child : ComponentId}
    (hnew : way.any (· == child) = false) (hparental : (a.children child).isEmpty = false) :
    1 + (a.children child).length * rounds (width a) (unused a (way ++ [child])) ≤
      rounds (width a) (unused a way) := by
  have hless : unused a (way ++ [child]) + 1 ≤ unused a way := unused_append_lt hnew hparental
  calc
    1 + (a.children child).length * rounds (width a) (unused a (way ++ [child]))
      ≤ 1 + width a * rounds (width a) (unused a (way ++ [child])) :=
        Nat.add_le_add_left (Nat.mul_le_mul_right _ (children_length_le_width a child)) 1
    _ = rounds (width a) (unused a (way ++ [child]) + 1) := rfl
    _ ≤ rounds (width a) (unused a way) := rounds_mono _ hless

/-!
# The simulation

The list of uses that the expansion has in hand lies on top of the stack.  What
lies below it, the later uses of all levels above, is not touched.
-/

theorem runs_cons {a : Adjacency} {maxDepth most : Nat} {b c d : TreeBuilder}
    {child : ComponentId} {later : List ComponentId}
    (hchild : exists m, m ≤ most ∧ Runs a maxDepth m b c)
    (hlater : exists n, n ≤ later.length * most ∧ Runs a maxDepth n c d) :
    exists n, n ≤ (child :: later).length * most ∧ Runs a maxDepth n b d := by
  rcases hchild with ⟨m, hm, hbc⟩
  rcases hlater with ⟨n, hn, hcd⟩
  refine ⟨m + n, ?_, runs_trans hbc hcd⟩
  rw [List.length_cons, Nat.succ_mul, Nat.add_comm m n]
  exact Nat.add_le_add hn hm

theorem runs_of_expands {a : Adjacency} {maxDepth : Nat} {way : List ComponentId}
    {parent : Option Nat} {depth : Nat} {children : List ComponentId} {t u : ComponentTree}
    (h : Expands a maxDepth way parent depth children t u) (hleads : LeadsTo t parent way)
    (rest : List PendingUse) :
    exists n, n ≤ children.length * rounds (width a) (unused a way) ∧
      Runs a maxDepth n ⟨t, pending parent depth children ++ rest⟩ ⟨u, rest⟩ := by
  induction h generalizing rest with
  | done => exact ⟨0, Nat.zero_le _, runs_refl _ _ _⟩
  | @cyclic way parent depth child later t u hon _ ih =>
      have hstep := runs_step a maxDepth t ⟨parent, child, depth⟩ (pending parent depth later ++ rest)
      rw [step_cyclic hleads hon] at hstep
      have hafter := leadsTo_grow (u := report t (closing way child)) hleads rfl ⟨#[], by simp [report]⟩
      exact runs_cons ⟨1, one_le_rounds _ _, hstep⟩ (ih hafter rest)
  | @leaf way parent depth child later t u hnew hempty _ ih =>
      have hstep := runs_step a maxDepth t ⟨parent, child, depth⟩ (pending parent depth later ++ rest)
      rw [step_leaf hleads hnew hempty] at hstep
      exact runs_cons ⟨1, one_le_rounds _ _, hstep⟩ (ih (leadsTo_place hleads child depth) rest)
  | @limited way parent depth child later t u hnew hparental hdepth _ ih =>
      have hstep := runs_step a maxDepth t ⟨parent, child, depth⟩ (pending parent depth later ++ rest)
      rw [step_limited hleads hnew hparental hdepth] at hstep
      exact runs_cons ⟨1, one_le_rounds _ _, hstep⟩ (ih (leadsTo_place hleads child depth) rest)
  | @inner way parent depth child later t below u hnew hparental hdepth hbelow _ ihBelow ihRest =>
      have hstep := runs_step a maxDepth t ⟨parent, child, depth⟩ (pending parent depth later ++ rest)
      rw [step_inner hleads hnew hparental hdepth] at hstep
      have hafter := leadsTo_grow (leadsTo_place hleads child depth) (expands_root hbelow)
        (expands_nodes hbelow)
      rcases ihBelow (leadsTo_enter hleads child depth) (pending parent depth later ++ rest) with
        ⟨m, hm, hruns⟩
      have hfit : 1 + m ≤ rounds (width a) (unused a way) :=
        Nat.le_trans (Nat.add_le_add_left hm 1) (children_rounds_le hnew hparental)
      exact runs_cons ⟨1 + m, hfit, runs_trans hstep hruns⟩ (ihRest hafter rest)

theorem unused_nil (a : Adjacency) : unused a [] = a.size := by
  simp [unused, Adjacency.size, Index.size]

/-- The rounds that the uses of the root take are no more than those that are given. -/
theorem root_rounds_le (a : Adjacency) (root : ComponentId) :
    (a.children root).length * rounds (width a) (unused a [root]) ≤
      rounds (width a) a.size := by
  cases hparental : (a.children root).isEmpty with
  | true =>
      rw [List.isEmpty_iff.mp hparental]
      exact Nat.zero_mul _ ▸ Nat.zero_le _
  | false =>
      have hnew : ([] : List ComponentId).any (· == root) = false := rfl
      have hfit := children_rounds_le hnew hparental
      rw [unused_nil, List.nil_append] at hfit
      exact Nat.le_trans (Nat.le_add_left _ 1) hfit

theorem loop_start (a : Adjacency) (maxDepth : Nat) (root : ComponentId) {n : Nat}
    (hn : rounds (width a) a.size ≤ n) :
    (start a root).loop a maxDepth n =
      ⟨expand a maxDepth [root] none 1 (a.children root) ⟨root, #[], #[]⟩, []⟩ := by
  have hexpands := expands_expand a maxDepth [root] none 1 (a.children root) ⟨root, #[], #[]⟩
  rcases runs_of_expands hexpands (leadsTo_root root) [] with ⟨m, hm, hruns⟩
  have hle : m ≤ n := Nat.le_trans hm (Nat.le_trans (root_rounds_le a root) hn)
  have hloop := hruns (n - m)
  rw [List.append_nil, Nat.add_sub_cancel' hle, loop_empty] at hloop
  exact hloop

theorem loop_start_of_stack_empty {a : Adjacency} {maxDepth : Nat} {root : ComponentId} {n : Nat}
    (hstack : ((start a root).loop a maxDepth n).stack = []) :
    (start a root).loop a maxDepth n =
      ⟨expand a maxDepth [root] none 1 (a.children root) ⟨root, #[], #[]⟩, []⟩ := by
  -- More rounds change nothing once the stack is empty, so take enough of them.
  have hmore := loop_start a maxDepth root (Nat.le_add_left (rounds (width a) a.size) n)
  rw [loop_add] at hmore
  cases hlast : (start a root).loop a maxDepth n with
  | mk t stack =>
      rw [hlast] at hstack hmore
      cases hstack
      rw [loop_empty] at hmore
      exact hmore

end TreeBuilder

namespace ComponentTree

open TreeBuilder

theorem buildFrom_eq_expand (a : Adjacency) (maxDepth : Nat) (root : ComponentId) :
    buildFrom a maxDepth root =
      expand a (max maxDepth 1) [root] none 1 (a.children root) ⟨root, #[], #[]⟩ := by
  rw [buildFrom, loop_start a (max maxDepth 1) root (Nat.le_refl _)]

theorem root_buildFrom (a : Adjacency) (maxDepth : Nat) (root : ComponentId) :
    (buildFrom a maxDepth root).root = root := by
  rw [buildFrom_eq_expand]
  exact expands_root (expands_expand _ _ _ _ _ _ _)

/-- The loop builds the tree of the recursive expansion, within the rounds it is given
and whenever its stack has become empty. -/
theorem loop_agrees_with_expansion (a : Adjacency) (maxDepth : Nat) (root : ComponentId) :
    buildFrom a maxDepth root = expandFrom a maxDepth root ∧
      forall n, ((start a root).loop a (max maxDepth 1) n).stack = [] ->
        ((start a root).loop a (max maxDepth 1) n).tree = expandFrom a maxDepth root := by
  constructor
  · exact buildFrom_eq_expand a maxDepth root
  · intro n hstack
    rw [loop_start_of_stack_empty hstack]
    rfl

def page : ComponentId := ⟨⟨"page.jsx"⟩, "Page"⟩

def card : ComponentId := ⟨⟨"card.jsx"⟩, "Card"⟩

def button : ComponentId := ⟨⟨"button.jsx"⟩, "Button"⟩

/-- A page with two cards, each of which holds the page again and a button. -/
def twoCards : Adjacency :=
  Adjacency.ofLists [(page, [card, card]), (card, [page, button])]

theorem loop_agrees_with_expansion_twoCards :
    ((start twoCards page).loop twoCards 2 8).stack = [] ∧
      ((start twoCards page).loop twoCards 2 8).tree = expandFrom twoCards 2 page := by
  have hstack : ((start twoCards page).loop twoCards 2 8).stack = [] := by decide +kernel
  exact ⟨hstack, (loop_agrees_with_expansion twoCards 2 page).right 8 hstack⟩

end ComponentTree
end JsxUsage
