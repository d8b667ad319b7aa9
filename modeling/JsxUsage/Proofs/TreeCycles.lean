import JsxUsage.Proofs.TreeReachability
import JsxUsage.Proofs.UsageCycles

/-!
# Trees and cycles

A tree leaves out a use that would close a cycle, and the usage graph reports its
cycles as groups of components.  The part of the way that such a use closes lies in
one of the groups.  In the other direction a walk that has come to a group can go on
inside it until a use leads back to the way, so that a tree without a depth limit
leaves out a use for each group that it comes to.
-/

namespace JsxUsage
namespace ComponentTree

open Adjacency TreeBuilder

/-!
# Uses that are left out
-/

/-- The components `way` lead from the root to a place of the tree where `c` is used,
and `c` is one of them; `chain` are the names of both. -/
structure LeavesOut (a : Adjacency) (t : ComponentTree) (way : List ComponentId)
    (c : ComponentId) (chain : List String) : Prop where
  place : exists parent, LeadsTo t parent way
  used : c ∈ a.children (way.getLastD t.root)
  again : way.any (· == c) = true
  names : chain = way.map ComponentId.name ++ [c.name]

section Places

variable {a : Adjacency} {maxDepth : Nat} (hdepth : 1 ≤ maxDepth) {root : ComponentId}

include hdepth

theorem leadsTo_of_walk {positions : List Nat} {trail : List ComponentId}
    (hwalk : Walk a root positions trail) (hfree : RepeatFree (root :: trail))
    (hlength : positions.length ≤ maxDepth) :
    exists parent, LeadsTo (buildFrom a maxDepth root) parent (root :: trail) := by
  by_cases hne : positions = []
  · subst hne
    cases hwalk
    refine ⟨none, ?_, ?_⟩
    · intro p hp
      cases hp
    · rw [root_buildFrom]
      rfl
  · have hsimple : positions ∈ simpleWalks a maxDepth root := ⟨hne, hlength, trail, hwalk, hfree⟩
    rcases (address_bijOn a hdepth root).surjOn hsimple with ⟨i, hi, rfl⟩
    refine ⟨some i, ?_, ?_⟩
    · intro p hp
      cases hp
      exact hi
    · rw [root_buildFrom, walk_unique hwalk (walk_address a hdepth root hi)]
      rfl

theorem walk_of_leadsTo {parent : Option Nat} {way : List ComponentId}
    (h : LeadsTo (buildFrom a maxDepth root) parent way) :
    exists positions trail, way = root :: trail ∧ Walk a root positions trail := by
  rcases h with ⟨hplaced, hway⟩
  rw [root_buildFrom] at hway
  cases parent with
  | none => exact ⟨[], [], hway, Walk.stay root⟩
  | some i => exact ⟨_, _, hway, walk_address a hdepth root (hplaced i rfl)⟩

theorem leavesOut_of_walk {positions : List Nat} {trail : List ComponentId} {c : ComponentId}
    (hwalk : Walk a root positions trail) (hfree : RepeatFree (root :: trail))
    (hlength : positions.length ≤ maxDepth) (hc : c ∈ a.children (trail.getLastD root))
    (hagain : (root :: trail).any (· == c) = true) :
    LeavesOut a (buildFrom a maxDepth root) (root :: trail) c
      ((root :: trail).map ComponentId.name ++ [c.name]) := by
  refine ⟨leadsTo_of_walk hdepth hwalk hfree hlength, ?_, hagain, rfl⟩
  rw [List.getLastD_cons]
  exact hc

/-- Each chain in the diagnostics tells of a use that is left out. -/
theorem leavesOut_of_diagnostic {chain : List String}
    (h : Diagnostic.cyclicUsage chain ∈ (buildFrom a maxDepth root).diagnostics) :
    exists way c, LeavesOut a (buildFrom a maxDepth root) way c chain := by
  rcases (mem_diagnostics_buildFrom hdepth).mp h with hcyclic | hlimit
  · rcases hcyclic with ⟨steps, trail, c, hwalk, hfree, hlength, hc, hagain, hchain⟩
    cases hchain
    exact ⟨root :: trail, c, leavesOut_of_walk hdepth hwalk hfree (by omega) hc hagain⟩
  · rcases hlimit with ⟨_, _, _, _, _, _, hother⟩
    cases hother

end Places

/-!
# Groups that are hit
-/

section Groups

variable {r : Registry} {a : Adjacency} (hwithin : a.Within r)
variable {maxDepth : Nat} (hdepth : 1 ≤ maxDepth) {root : ComponentId} (hroot : r.Registered root)

include hwithin hdepth hroot

theorem group_of_leavesOut {way : List ComponentId} {c : ComponentId} {chain : List String}
    (h : LeavesOut a (buildFrom a maxDepth root) way c chain) :
    exists group member front x back, group ∈ (UsageGraph.build r a).cycles ∧ member ∈ group ∧
      chain.getLast? = some member.name ∧
      member ∉ (UsageGraph.build r a).unreachableFrom root ∧
      way = front ++ x :: back ∧ (x == member) = true ∧
      forall y, y ∈ x :: back -> exists z, z ∈ group ∧ (z == y) = true := by
  rcases h.place with ⟨parent, hparent⟩
  rcases walk_of_leadsTo hdepth hparent with ⟨positions, trail, rfl, hwalk⟩
  rcases List.any_eq_true.mp h.again with ⟨x, hx, hxc⟩
  rcases List.append_of_mem hx with ⟨front, back, hway⟩
  rcases walk_from_member hwalk hway with ⟨hreaches, hlast, later, hlater⟩
  have hused := h.used
  rw [List.getLastD_cons, hlast] at hused
  have hcircle : forall y, y ∈ x :: back -> a.Mutual x y := by
    intro y hy
    exact mutual_of_walk hlater ⟨c, hused, BEq.symm hxc⟩ hy
  have hself := hcircle x List.mem_cons_self
  rcases UsageGraph.position_of_registered
    (UsageGraph.registered_of_leads hwithin hself.left) with ⟨_, member, _, hmember, hsame⟩
  have hid : member ∈ r.ids := List.mem_of_getElem? hmember
  have hmutual : a.Mutual member member := mutual_congr (BEq.symm hsame) (BEq.symm hsame) hself
  rcases UsageGraph.exists_group_build hwithin hid hmutual with ⟨group, hgroup, hclass⟩
  have hin : member ∈ group := (hclass member).mpr ⟨hid, hmutual⟩
  refine ⟨group, member, front, x, back, hgroup, hin, ?_, ?_, hway, BEq.symm hsame, ?_⟩
  · rw [h.names, List.getLast?_concat, ComponentId.name_eq_of_beq (BEq.trans hsame hxc)]
  · intro hnot
    exact ((UsageGraph.mem_unreachableFrom_build hwithin hroot).mp hnot).right
      (reaches_congr (BEq.symm hsame) hreaches)
  · intro y hy
    exact UsageGraph.exists_member_of_mutual hwithin hgroup hin
      (mutual_congr (BEq.symm hsame) BEq.rfl (hcircle y hy))

omit hwithin hroot in
/-- A walk without repetition that has come to a circle goes on in it until a use
leads back to the walk. -/
theorem exists_closing_use (hunlimited : Unlimited (buildFrom a maxDepth root)) {d : ComponentId}
    {positions : List Nat} {trail : List ComponentId} (hwalk : Walk a root positions trail)
    (hfree : RepeatFree (root :: trail)) (hcircle : a.Mutual d (trail.getLastD root)) :
    exists steps ahead c, Walk a root steps ahead ∧ RepeatFree (root :: ahead) ∧
      steps.length < maxDepth ∧ c ∈ a.children (ahead.getLastD root) ∧
      (root :: ahead).any (· == c) = true ∧ a.Mutual d c := by
  -- The walk gets longer with each step, and its length is bounded.
  induction hleft : maxDepth - positions.length using Nat.strongRecOn
    generalizing positions trail with
  | ind left ih =>
      rcases mutual_next hcircle with ⟨c, hc, hcircle⟩
      have hlength := length_lt_of_unlimited hdepth hunlimited hwalk hfree (children_of_mem hc)
      cases hagain : (root :: trail).any (· == c) with
      | true => exact ⟨positions, trail, c, hwalk, hfree, hlength, hc, hagain, hcircle⟩
      | false =>
          rcases List.mem_iff_getElem?.mp hc with ⟨k, hstep⟩
          have hcircle : a.Mutual d ((trail ++ [c]).getLastD root) := by
            rw [List.getLastD_concat]
            exact hcircle
          have hless : maxDepth - (positions ++ [k]).length < left := by
            rw [List.length_append, List.length_singleton]
            omega
          exact ih _ hless (walk_snoc hwalk hstep) (repeatFree_snoc.mpr ⟨hfree, hagain⟩)
            hcircle rfl

theorem group_is_hit (hunlimited : Unlimited (buildFrom a maxDepth root))
    {group : List ComponentId} (hgroup : group ∈ (UsageGraph.build r a).cycles) {d : ComponentId}
    (hd : d ∈ group) (hreached : d ∉ (UsageGraph.build r a).unreachableFrom root) :
    exists chain way c member,
      Diagnostic.cyclicUsage chain ∈ (buildFrom a maxDepth root).diagnostics ∧
      LeavesOut a (buildFrom a maxDepth root) way c chain ∧ member ∈ group ∧
      (member == c) = true ∧ chain.getLast? = some member.name := by
  rcases (UsageGraph.group_of_mem_build hwithin hgroup hd).mp hd with ⟨hid, hself⟩
  have hreaches : a.Reaches root d := by
    by_contra hnot
    exact hreached ((UsageGraph.mem_unreachableFrom_build hwithin hroot).mpr ⟨hid, hnot⟩)
  rcases simplyReaches_of_reaches hreaches with ⟨positions, trail, hwalk, hfree, hlast⟩
  rcases exists_closing_use hdepth hunlimited hwalk hfree
    (mutual_congr BEq.rfl (BEq.symm hlast) hself) with
    ⟨steps, ahead, c, hsteps, hahead, hlength, hc, hagain, hcircle⟩
  rcases UsageGraph.exists_member_of_mutual hwithin hgroup hd hcircle with
    ⟨member, hmember, hsame⟩
  have hcut : CyclicCut a (maxDepth - 1) [root] root (closing (root :: ahead) c) :=
    ⟨steps, ahead, c, hsteps, hahead, by omega, hc, hagain, rfl⟩
  refine ⟨_, root :: ahead, c, member, (mem_diagnostics_buildFrom hdepth).mpr (Or.inl hcut),
    leavesOut_of_walk hdepth hsteps hahead (Nat.le_of_lt hlength) hc hagain, hmember, hsame, ?_⟩
  rw [List.getLast?_concat, ComponentId.name_eq_of_beq hsame]

end Groups

/-- Each chain in the diagnostics ends in a member of a group that can be reached from
the root, and the way that was cut is in this group from that member on.  Where the
depth limit has cut nothing, some chain ends in each group with a member that can be
reached. -/
theorem diagnostics_agree_with_cycles (ds : List Definition) (a : Adjacency) (maxDepth : Nat)
    (root : ComponentId) (hdepth : 1 ≤ maxDepth) (hwithin : a.Within (Registry.ofDefinitions ds))
    (hroot : (Registry.ofDefinitions ds).Registered root) :
    (forall chain, Diagnostic.cyclicUsage chain ∈ (buildFrom a maxDepth root).diagnostics ->
      (exists way c, LeavesOut a (buildFrom a maxDepth root) way c chain) ∧
      forall way c, LeavesOut a (buildFrom a maxDepth root) way c chain ->
        exists group member front x back,
          group ∈ (UsageGraph.build (Registry.ofDefinitions ds) a).cycles ∧ member ∈ group ∧
          chain.getLast? = some member.name ∧
          member ∉ (UsageGraph.build (Registry.ofDefinitions ds) a).unreachableFrom root ∧
          way = front ++ x :: back ∧ (x == member) = true ∧
          forall y, y ∈ x :: back -> exists z, z ∈ group ∧ (z == y) = true) ∧
      (Unlimited (buildFrom a maxDepth root) ->
        forall group, group ∈ (UsageGraph.build (Registry.ofDefinitions ds) a).cycles ->
        forall d, d ∈ group ->
          d ∉ (UsageGraph.build (Registry.ofDefinitions ds) a).unreachableFrom root ->
          exists chain way c member,
            Diagnostic.cyclicUsage chain ∈ (buildFrom a maxDepth root).diagnostics ∧
            LeavesOut a (buildFrom a maxDepth root) way c chain ∧ member ∈ group ∧
            (member == c) = true ∧ chain.getLast? = some member.name) := by
  constructor
  · intro chain hchain
    refine ⟨leavesOut_of_diagnostic hdepth hchain, ?_⟩
    intro way c hout
    exact group_of_leavesOut hwithin hdepth hroot hout
  · intro hunlimited group hgroup d hd hreached
    exact group_is_hit hwithin hdepth hroot hunlimited hgroup hd hreached

theorem diagnostics_twoCards : (buildFrom twoCards 2 page).diagnostics =
    #[.cyclicUsage ["Page", "Card", "Page"], .cyclicUsage ["Page", "Card", "Page"]] := by
  apply Array.toList_inj.mp
  rw [diagnostics_buildFrom twoCards (by decide)]
  rfl

theorem diagnostics_agree_with_cycles_cardProject :
    (Registry.ofDefinitions cardProject).Registered page ∧
      Unlimited (buildFrom twoCards 2 page) ∧
      exists group, group ∈ (UsageGraph.build (Registry.ofDefinitions cardProject) twoCards).cycles ∧
        (exists member, member ∈ group ∧ member.name = "Page") ∧
        exists chain : List String,
          Diagnostic.cyclicUsage chain ∈ (buildFrom twoCards 2 page).diagnostics ∧
          exists member, member ∈ group ∧ chain.getLast? = some member.name := by
  have hroot : (Registry.ofDefinitions cardProject).Registered page := by decide +kernel
  have hunlimited : Unlimited (buildFrom twoCards 2 page) := by decide +kernel
  have hmem : Diagnostic.cyclicUsage ["Page", "Card", "Page"] ∈
      (buildFrom twoCards 2 page).diagnostics := by
    rw [diagnostics_twoCards]
    simp
  rcases diagnostics_agree_with_cycles cardProject twoCards 2 page (by decide)
    within_cardProject hroot with ⟨hchains, hgroups⟩
  rcases hchains _ hmem with ⟨⟨way, c, hout⟩, hgroup⟩
  rcases hgroup way c hout with ⟨group, member, _, _, _, hcycle, hmember, hname, hreached, _⟩
  rcases hgroups hunlimited group hcycle member hmember hreached with
    ⟨chain, _, _, other, hchain, _, hother, _, hlast⟩
  exact ⟨hroot, hunlimited, group, hcycle, ⟨member, hmember, (Option.some.inj hname).symm⟩,
    chain, hchain, other, hother, hlast⟩

end ComponentTree
end JsxUsage
