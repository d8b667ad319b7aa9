import JsxUsage.Proofs.TreeExpansion
import JsxUsage.Proofs.Walks

/-!
# What a tree leaves out

The diagnostics of a built tree tell where it was cut.  This module gives them as a
function of the uses alone, and says which walks they belong to: a cycle is reported
where a walk without repetition comes to a use of a component that it has already
come to, and the depth limit where such a walk has the greatest length and could
still go on.
-/

namespace JsxUsage
namespace ComponentTree

open Adjacency TreeBuilder

/-- The diagnostics for one use of `c` at a depth, with `n` levels allowed below it. -/
def cuts (a : Adjacency) (n depth : Nat) (way : List ComponentId) (c : ComponentId) :
    List Diagnostic :=
  if way.any (· == c) then [closing way c]
  else if (a.children c).isEmpty then []
  else
    match n with
    | 0 => [.depthLimit c.name depth]
    | n + 1 => (a.children c).flatMap (cuts a n (depth + 1) (way ++ [c]))

theorem cuts_cyclic {a : Adjacency} {way : List ComponentId} {c : ComponentId}
    (hon : way.any (· == c) = true) (n depth : Nat) : cuts a n depth way c = [closing way c] := by
  rw [cuts.eq_def, if_pos hon]

theorem cuts_leaf {a : Adjacency} {way : List ComponentId} {c : ComponentId}
    (hnew : way.any (· == c) = false) (hempty : (a.children c).isEmpty = true) (n depth : Nat) :
    cuts a n depth way c = [] := by
  rw [cuts.eq_def, if_neg (by simp [hnew]), if_pos hempty]

theorem cuts_zero {a : Adjacency} {way : List ComponentId} {c : ComponentId}
    (hnew : way.any (· == c) = false) (hparental : (a.children c).isEmpty = false) (depth : Nat) :
    cuts a 0 depth way c = [.depthLimit c.name depth] := by
  rw [cuts, if_neg (by simp [hnew]), if_neg (by simp [hparental])]

theorem cuts_succ {a : Adjacency} {way : List ComponentId} {c : ComponentId}
    (hnew : way.any (· == c) = false) (hparental : (a.children c).isEmpty = false)
    (n depth : Nat) :
    cuts a (n + 1) depth way c =
      (a.children c).flatMap (cuts a n (depth + 1) (way ++ [c])) := by
  rw [cuts, if_neg (by simp [hnew]), if_neg (by simp [hparental])]

theorem expands_diagnostics {a : Adjacency} {maxDepth : Nat} {way : List ComponentId}
    {parent : Option Nat} {depth : Nat} {children : List ComponentId} {t u : ComponentTree}
    (h : Expands a maxDepth way parent depth children t u) :
    u.diagnostics.toList =
      t.diagnostics.toList ++ children.flatMap (cuts a (maxDepth - depth) depth way) := by
  induction h with
  | done => simp
  | cyclic hon _ ih => simp [ih, report, cuts_cyclic hon]
  | leaf hnew hempty _ ih => simp [ih, place, cuts_leaf hnew hempty]
  | limited hnew hparental hlimit _ ih =>
      simp [ih, report, place, Nat.sub_eq_zero_of_le hlimit, cuts_zero hnew hparental]
  | @inner way parent depth child later t below u hnew hparental hlimit _ _ ihBelow ihRest =>
      have hlevel : maxDepth - depth = (maxDepth - (depth + 1)) + 1 := by omega
      have hcuts := cuts_succ hnew hparental (maxDepth - (depth + 1)) depth
      rw [ihRest, ihBelow, List.flatMap_cons, ← List.append_assoc]
      rw [← hlevel] at hcuts
      rw [hcuts]
      rfl

theorem diagnostics_buildFrom (a : Adjacency) {maxDepth : Nat} (hdepth : 1 ≤ maxDepth)
    (root : ComponentId) :
    (buildFrom a maxDepth root).diagnostics.toList =
      (a.children root).flatMap (cuts a (maxDepth - 1) 1 [root]) := by
  rw [buildFrom_eq_expand, Nat.max_eq_left hdepth]
  exact expands_diagnostics (expands_expand a maxDepth [root] none 1 (a.children root) _)

/-!
# Cuts and walks

The way is fixed up to a component `last`, from whose list the walks go on.
-/

/-- A walk from `last`, without repetition on the way, has a use at its end that
closes a cycle. -/
def CyclicCut (a : Adjacency) (n : Nat) (way : List ComponentId) (last : ComponentId)
    (d : Diagnostic) : Prop :=
  exists steps trail c, Walk a last steps trail ∧ RepeatFree (way ++ trail) ∧
    steps.length ≤ n ∧ c ∈ a.children (trail.getLastD last) ∧
    (way ++ trail).any (· == c) = true ∧ d = closing (way ++ trail) c

/-- A walk from `last`, without repetition on the way, is as long as it may be, and
the component at its end uses others. -/
def LimitCut (a : Adjacency) (n depth : Nat) (way : List ComponentId) (last : ComponentId)
    (d : Diagnostic) : Prop :=
  exists steps trail, Walk a last steps trail ∧ RepeatFree (way ++ trail) ∧
    steps.length = n + 1 ∧ (a.children (trail.getLastD last)).isEmpty = false ∧
    d = .depthLimit (trail.getLastD last).name (depth + n)

theorem repeatFree_append_cons {way trail : List ComponentId} {c : ComponentId}
    (h : RepeatFree (way ++ c :: trail)) :
    way.any (· == c) = false ∧ RepeatFree (way ++ [c] ++ trail) := by
  rw [List.append_cons] at h
  exact ⟨(repeatFree_snoc.mp (List.pairwise_append.mp h).left).right, h⟩

theorem children_of_mem {a : Adjacency} {c d : ComponentId} (h : d ∈ a.children c) :
    (a.children c).isEmpty = false := by
  simpa using List.ne_nil_of_mem h

theorem mem_cuts {a : Adjacency} {n depth : Nat} {way : List ComponentId} {c : ComponentId}
    {d : Diagnostic} :
    d ∈ cuts a n depth way c <->
      (way.any (· == c) = true ∧ d = closing way c) ∨
      (way.any (· == c) = false ∧ (a.children c).isEmpty = false ∧
        ((n = 0 ∧ d = .depthLimit c.name depth) ∨
          exists m, n = m + 1 ∧
            d ∈ (a.children c).flatMap (cuts a m (depth + 1) (way ++ [c])))) := by
  cases hon : way.any (· == c) with
  | true => simp [cuts_cyclic hon]
  | false =>
      cases hempty : (a.children c).isEmpty with
      | true => simp [cuts_leaf hon hempty]
      | false =>
          cases n with
          | zero => simp [cuts_zero hon hempty]
          | succ n => simp [cuts_succ hon hempty]

/-!
A cut below a component is a cut one step further up.
-/

theorem cyclicCut_above {a : Adjacency} {n k : Nat} {way : List ComponentId}
    {last c : ComponentId} {d : Diagnostic} (hstep : (a.children last)[k]? = some c)
    (h : CyclicCut a n (way ++ [c]) c d) : CyclicCut a (n + 1) way last d := by
  rcases h with ⟨steps, trail, e, hwalk, hfree, hlength, he, hon, hd⟩
  refine ⟨k :: steps, c :: trail, e, Walk.use hstep hwalk, ?_, Nat.succ_le_succ hlength, ?_, ?_, ?_⟩
  · rw [List.append_cons]
    exact hfree
  · rw [List.getLastD_cons]
    exact he
  · rw [List.append_cons]
    exact hon
  · rw [List.append_cons way c trail]
    exact hd

theorem limitCut_above {a : Adjacency} {n depth k : Nat} {way : List ComponentId}
    {last c : ComponentId} {d : Diagnostic} (hstep : (a.children last)[k]? = some c)
    (h : LimitCut a n (depth + 1) (way ++ [c]) c d) : LimitCut a (n + 1) depth way last d := by
  rcases h with ⟨steps, trail, hwalk, hfree, hlength, hparental, hd⟩
  refine ⟨k :: steps, c :: trail, Walk.use hstep hwalk, ?_, ?_, ?_, ?_⟩
  · rw [List.append_cons]
    exact hfree
  · rw [List.length_cons, hlength]
  · rw [List.getLastD_cons]
    exact hparental
  · rw [List.getLastD_cons, hd]
    congr 1
    omega

theorem cut_of_mem {a : Adjacency} {n depth : Nat} {way : List ComponentId}
    {last : ComponentId} {d : Diagnostic} (hway : RepeatFree way)
    (hd : d ∈ (a.children last).flatMap (cuts a n depth way)) :
    CyclicCut a n way last d ∨ LimitCut a n depth way last d := by
  induction n using Nat.strongRecOn generalizing depth way last with
  | ind n ih =>
      rcases List.mem_flatMap.mp hd with ⟨c, hc, hcut⟩
      rcases List.mem_iff_getElem?.mp hc with ⟨k, hstep⟩
      rcases mem_cuts.mp hcut with ⟨hon, rfl⟩ | ⟨hnew, hparental, hbelow⟩
      · refine Or.inl ⟨[], [], c, Walk.stay last, ?_, Nat.zero_le n, hc, ?_, ?_⟩
        · rw [List.append_nil]
          exact hway
        · rw [List.append_nil]
          exact hon
        · rw [List.append_nil]
      · have hfree : RepeatFree (way ++ [c]) := repeatFree_snoc.mpr ⟨hway, hnew⟩
        rcases hbelow with ⟨rfl, rfl⟩ | ⟨m, rfl, hbelow⟩
        · exact Or.inr ⟨[k], [c], Walk.use hstep (Walk.stay c), hfree, rfl, hparental, rfl⟩
        · rcases ih m (Nat.lt_succ_self m) hfree hbelow with hcyclic | hlimit
          · exact Or.inl (cyclicCut_above hstep hcyclic)
          · exact Or.inr (limitCut_above hstep hlimit)

theorem mem_of_cyclicCut {a : Adjacency} {n : Nat} (depth : Nat) {way : List ComponentId}
    {last : ComponentId} {d : Diagnostic} (h : CyclicCut a n way last d) :
    d ∈ (a.children last).flatMap (cuts a n depth way) := by
  rcases h with ⟨steps, trail, e, hwalk, hfree, hlength, he, hon, hd⟩
  induction hwalk generalizing n depth way with
  | stay last =>
      rw [List.append_nil] at hon hd
      exact List.mem_flatMap.mpr ⟨e, he, mem_cuts.mpr (Or.inl ⟨hon, hd⟩)⟩
  | @use last c k steps trail hstep hwalk ih =>
      rcases repeatFree_append_cons hfree with ⟨hnew, hfree⟩
      rw [List.getLastD_cons] at he
      rw [List.append_cons] at hon hd
      have hparental : (a.children c).isEmpty = false := by
        cases hwalk with
        | stay => exact children_of_mem he
        | use hnext _ => exact children_of_mem (List.mem_of_getElem? hnext)
      cases n with
      | zero => cases hlength
      | succ n =>
          have hbelow := ih (depth + 1) hfree (Nat.le_of_succ_le_succ hlength) he hon hd
          exact List.mem_flatMap.mpr ⟨c, List.mem_of_getElem? hstep,
            mem_cuts.mpr (Or.inr ⟨hnew, hparental, Or.inr ⟨n, rfl, hbelow⟩⟩)⟩

theorem mem_of_limitCut {a : Adjacency} {n depth : Nat} {way : List ComponentId}
    {last : ComponentId} {d : Diagnostic} (h : LimitCut a n depth way last d) :
    d ∈ (a.children last).flatMap (cuts a n depth way) := by
  rcases h with ⟨steps, trail, hwalk, hfree, hlength, hend, hd⟩
  induction hwalk generalizing n depth way with
  | stay last => cases hlength
  | @use last c k steps trail hstep hwalk ih =>
      rcases repeatFree_append_cons hfree with ⟨hnew, hfree⟩
      rw [List.getLastD_cons] at hend hd
      have hlength : steps.length = n := Nat.succ.inj hlength
      have hparental : (a.children c).isEmpty = false := by
        cases hwalk with
        | stay => exact hend
        | use hnext _ => exact children_of_mem (List.mem_of_getElem? hnext)
      refine List.mem_flatMap.mpr ⟨c, List.mem_of_getElem? hstep,
        mem_cuts.mpr (Or.inr ⟨hnew, hparental, ?_⟩)⟩
      cases n with
      | zero =>
          rw [List.length_eq_zero_iff.mp hlength] at hwalk
          cases hwalk
          exact Or.inl ⟨rfl, hd⟩
      | succ n =>
          refine Or.inr ⟨n, rfl, ih hfree hlength hend ?_⟩
          rw [hd]
          congr 1
          omega

theorem mem_diagnostics_buildFrom {a : Adjacency} {maxDepth : Nat} {root : ComponentId}
    {d : Diagnostic} (hdepth : 1 ≤ maxDepth) :
    d ∈ (buildFrom a maxDepth root).diagnostics <->
      CyclicCut a (maxDepth - 1) [root] root d ∨ LimitCut a (maxDepth - 1) 1 [root] root d := by
  rw [← Array.mem_toList_iff, diagnostics_buildFrom a hdepth root]
  constructor
  · intro hd
    exact cut_of_mem (List.pairwise_singleton _ _) hd
  · intro h
    rcases h with hcyclic | hlimit
    · exact mem_of_cyclicCut 1 hcyclic
    · exact mem_of_limitCut hlimit

/-!
# Trees that the depth limit has not cut
-/

def isDepthLimit : Diagnostic -> Bool
  | .depthLimit _ _ => true
  | _ => false

/-- No diagnostic of the tree is about the depth limit. -/
def Unlimited (t : ComponentTree) : Prop :=
  forall name depth, Diagnostic.depthLimit name depth ∉ t.diagnostics

instance (t : ComponentTree) : Decidable (Unlimited t) :=
  decidable_of_iff (t.diagnostics.toList.any isDepthLimit = false) (by
    rw [List.any_eq_false]
    constructor
    · intro h name depth hmem
      exact h _ (Array.mem_toList_iff.mpr hmem) rfl
    · intro h d hd hlimit
      cases d with
      | depthLimit name depth => exact h name depth (Array.mem_toList_iff.mp hd)
      | _ => cases hlimit)

section Unlimited

variable {a : Adjacency} {maxDepth : Nat} {root : ComponentId} {positions : List Nat}
variable {trail : List ComponentId}

theorem length_lt_of_unlimited (hdepth : 1 ≤ maxDepth)
    (hunlimited : Unlimited (buildFrom a maxDepth root)) (hwalk : Walk a root positions trail)
    (hfree : RepeatFree (root :: trail))
    (hparental : (a.children (trail.getLastD root)).isEmpty = false) :
    positions.length < maxDepth := by
  apply Nat.lt_of_not_le
  intro hle
  rw [← walk_length hwalk] at hle
  -- Cut the walk to the greatest length: it can go on, so the limit is reported there.
  rw [← List.take_append_drop maxDepth trail] at hwalk hfree hparental
  rcases walk_split hwalk with ⟨front, back, rfl, hfront, hback⟩
  have hlength : front.length = (maxDepth - 1) + 1 := by
    rw [← walk_length hfront, List.length_take]
    omega
  have hfrontFree : RepeatFree ([root] ++ trail.take maxDepth) :=
    hfree.sublist ((List.sublist_append_left _ _).cons_cons root)
  have hfrontParental : (a.children ((trail.take maxDepth).getLastD root)).isEmpty = false := by
    cases hback' : trail.drop maxDepth with
    | nil =>
        rw [hback', List.append_nil] at hparental
        exact hparental
    | cons c rest =>
        rw [hback'] at hback
        cases hback with
        | use hstep _ => exact children_of_mem (List.mem_of_getElem? hstep)
  have hlimit : LimitCut a (maxDepth - 1) 1 [root] root _ :=
    ⟨front, _, hfront, hfrontFree, hlength, hfrontParental, rfl⟩
  exact hunlimited _ _ ((mem_diagnostics_buildFrom hdepth).mpr (Or.inr hlimit))

theorem length_le_of_unlimited (hdepth : 1 ≤ maxDepth)
    (hunlimited : Unlimited (buildFrom a maxDepth root)) (hwalk : Walk a root positions trail)
    (hfree : RepeatFree (root :: trail)) : positions.length ≤ maxDepth := by
  rcases List.eq_nil_or_concat' trail with rfl | ⟨front, c, rfl⟩
  · rw [← walk_length hwalk]
    exact Nat.zero_le _
  · rcases walk_snoc_inv hwalk with ⟨steps, k, rfl, hsteps, hstep⟩
    have hfrontFree : RepeatFree (root :: front) :=
      hfree.sublist ((List.sublist_append_left _ _).cons_cons root)
    have hlt := length_lt_of_unlimited hdepth hunlimited hsteps hfrontFree
      (children_of_mem (List.mem_of_getElem? hstep))
    rw [List.length_append]
    exact hlt

end Unlimited

end ComponentTree
end JsxUsage
