import JsxUsage.Proofs.TextMarks
import JsxUsage.Proofs.TreeShape
import JsxUsage.Syntax.Grammar.Basic

/-!
# Readings of nodes

A reading of nodes is sound if the nodes lie in order between the line on which it begins
and the one on which it ends, and their markup follows the grammar.  The rules of this
module follow the parts from which readings are made.  `Completes` carries the nodes that
were read before, so that a rule which reads its parts one after the other and then puts
them below a new node is sound by one rule for each of its steps.
-/

namespace JsxUsage
namespace Syntax

open Text (Mark Point Reply Reading)
open Text.Reading

/-- Kinds about which the grammar of markup says nothing. -/
def Kind.isPlain : Kind -> Bool
  | .jsxElement => false
  | .jsxOpeningElement => false
  | .jsxSelfClosingElement => false
  | _ => true

namespace Node

/-!
# Nodes between two lines
-/

theorem inOrder_mono_first {first first' last : Nat} {ns : List Node} (h : InOrder first ns last)
    (hle : first' ≤ first) : InOrder first' ns last := by
  cases h with
  | none hlast => exact InOrder.none (Nat.le_trans hle hlast)
  | next hline hcs hrest => exact InOrder.next (Nat.le_trans hle hline) hcs hrest

theorem inOrder_append {first middle last : Nat} {ns ms : List Node} (hns : InOrder first ns middle)
    (hms : InOrder middle ms last) : InOrder first (ns ++ ms) last := by
  induction hns with
  | none hle => exact inOrder_mono_first hms hle
  | next hline hcs _ _ ih => exact InOrder.next hline hcs (ih hms)

theorem fitsMarkup_of_plain {l : Label} {cs : List Node} (hplain : l.kind.isPlain = true)
    (hcs : forall c, c ∈ cs -> c.FollowsMarkup) : (node l cs).FitsMarkup := by
  have hkind : (node l cs).kind.isPlain = true := hplain
  constructor
  · intro hclosed
    rw [hclosed] at hkind
    cases hkind
  · intro helement
    rw [helement] at hkind
    cases hkind
  · intro c hc hopening
    exact absurd hopening (hcs c hc).start

/-- A tree follows the grammar if its start fits and all below its children does. -/
theorem followsMarkup_node {l : Label} {cs : List Node} (hstart : l.kind ≠ .jsxOpeningElement)
    (hfits : (node l cs).FitsMarkup)
    (hcs : forall c, c ∈ cs -> forall n, n ∈ c.preorder -> n.FitsMarkup) :
    (node l cs).FollowsMarkup := by
  refine followsMarkup_iff.mpr ⟨hstart, ?_⟩
  intro n hn
  rw [preorder_eq, List.mem_cons, List.mem_flatMap] at hn
  rcases hn with rfl | ⟨c, hc, hbelow⟩
  · exact hfits
  · exact hcs c hc n hbelow

theorem followsMarkup_of_plain {l : Label} {cs : List Node} (hplain : l.kind.isPlain = true)
    (hcs : forall c, c ∈ cs -> c.FollowsMarkup) : (node l cs).FollowsMarkup := by
  apply followsMarkup_node
  · intro hopening
    rw [hopening] at hplain
    cases hplain
  · exact fitsMarkup_of_plain hplain hcs
  · intro c hc
    exact (followsMarkup_iff.mp (hcs c hc)).right

theorem fitsMarkup_withRole {n : Node} {role : Role} (h : n.FitsMarkup) :
    (n.withRole role).FitsMarkup := by
  cases n with
  | node l cs => exact ⟨h.closed_named, h.opened, h.opening⟩

theorem followsMarkup_withRole {n : Node} {role : Role} (h : n.FollowsMarkup) :
    (n.withRole role).FollowsMarkup := by
  rcases followsMarkup_iff.mp h with ⟨hstart, hfits⟩
  cases n with
  | node l cs =>
      apply followsMarkup_node
      · exact hstart
      · exact fitsMarkup_withRole (hfits (node l cs) (by simp [preorder]))
      · intro c hc m hm
        apply hfits
        rw [preorder_eq]
        exact List.mem_cons_of_mem _ (List.mem_flatMap.mpr ⟨c, hc, hm⟩)

/-- The nodes lie in order between two lines, and their markup follows the grammar. -/
structure LaidOut (first : Nat) (ns : List Node) (last : Nat) : Prop where
  order : InOrder first ns last
  markup : forall n, n ∈ ns -> n.FollowsMarkup

theorem laidOut_nil {first last : Nat} (h : first ≤ last) : LaidOut first [] last :=
  ⟨InOrder.none h, by simp⟩

theorem laidOut_append {first middle last : Nat} {ns ms : List Node} (hns : LaidOut first ns middle)
    (hms : LaidOut middle ms last) : LaidOut first (ns ++ ms) last := by
  refine ⟨inOrder_append hns.order hms.order, ?_⟩
  intro n hn
  rcases List.mem_append.mp hn with hleft | hright
  · exact hns.markup n hleft
  · exact hms.markup n hright

theorem laidOut_mono_first {first first' last : Nat} {ns : List Node} (h : LaidOut first ns last)
    (hle : first' ≤ first) : LaidOut first' ns last :=
  ⟨inOrder_mono_first h.order hle, h.markup⟩

theorem laidOut_withRole {first last : Nat} {n : Node} {ns : List Node} (role : Role)
    (h : LaidOut first (n :: ns) last) : LaidOut first (n.withRole role :: ns) last := by
  constructor
  · cases h.order with
    | next hline hcs hrest => exact InOrder.next hline hcs hrest
  · intro m hm
    rcases List.mem_cons.mp hm with rfl | hlater
    · exact followsMarkup_withRole (h.markup n List.mem_cons_self)
    · exact h.markup m (List.mem_cons_of_mem _ hlater)

/-- Nodes that were read from a line on can be put below a node that starts there. -/
theorem laidOut_node {l : Label} {cs : List Node} {last : Nat} (hplain : l.kind.isPlain = true)
    (h : LaidOut l.line cs last) : LaidOut l.line [node l cs] last := by
  constructor
  · exact InOrder.next (Nat.le_refl _) h.order (InOrder.none (Nat.le_refl _))
  · intro n hn
    rw [List.mem_singleton.mp hn]
    exact followsMarkup_of_plain hplain h.markup

/-- Nodes can be put below a node that starts where the first of them does. -/
theorem laidOut_enclosed {kind : Kind} {first last : Nat} {n : Node} {ns : List Node}
    (hplain : kind.isPlain = true) (h : LaidOut first (n :: ns) last) :
    LaidOut first [branch kind n.line (n :: ns)] last := by
  have hstart : first ≤ n.line ∧ InOrder n.line (n :: ns) last := by
    cases h.order with
    | next hline hcs hrest => exact ⟨hline, InOrder.next (Nat.le_refl _) hcs hrest⟩
  exact laidOut_mono_first (laidOut_node (l := ⟨kind, none, n.line, ""⟩) hplain
    ⟨hstart.right, h.markup⟩) hstart.left

end Node

open Node

/-!
# Soundness of a reading
-/

section

variable {text : List Char} {α β γ : Type} {first : Nat} {before : List Node}

/-- After the nodes `before`, which were read from the line `first` on, the reading ends
with `nodes`, which lie between that line and the one of its end. -/
def Completes (text : List Char) (first : Nat) (before : List Node) (r : Reading α)
    (nodes : α -> List Node) : Prop :=
  r.Meets text (fun line => LaidOut first before line) fun a last => LaidOut first (nodes a) last

/-- What the reading reads holds `nodes`, which lie between the lines of its two ends. -/
def Yields (text : List Char) (r : Reading α) (nodes : α -> List Node) : Prop :=
  forall first, Completes text first [] r nodes

/-- The reading may pass some of the text but reads no nodes that are kept. -/
abbrev Passes (text : List Char) (r : Reading α) : Prop :=
  Yields text r fun _ => []

abbrev ReadsNode (text : List Char) (r : Reading Node) : Prop :=
  Yields text r fun n => [n]

abbrev ReadsNodes (text : List Char) (r : Reading (List Node)) : Prop :=
  Yields text r fun ns => ns

theorem completes_append {r : Reading α} {nodes : α -> List Node} (hr : Yields text r nodes) :
    Completes text first before r fun a => before ++ nodes a := by
  intro p hp hbefore
  have hreply := hr p.line p hp (laidOut_nil (Nat.le_refl _))
  cases hrun : r p with
  | done a next =>
      rw [hrun] at hreply
      exact ⟨hreply.left, laidOut_append hbefore hreply.right⟩
  | stuck m =>
      rw [hrun] at hreply
      exact hreply

theorem taking {r : Reading α} {f : α -> Reading β} {more : α -> List Node}
    {nodes : β -> List Node} (hr : Yields text r more)
    (hf : forall a, Completes text first (before ++ more a) (f a) nodes) :
    Completes text first before (r >>= f) nodes :=
  meets_bind (completes_append hr) hf

theorem passing {r : Reading α} {f : α -> Reading β} {nodes : β -> List Node}
    (hr : Passes text r) (hf : forall a, Completes text first before (f a) nodes) :
    Completes text first before (r >>= f) nodes := by
  apply taking hr
  intro a
  rw [List.append_nil]
  exact hf a

theorem ending {a : α} {nodes : α -> List Node} (h : before = nodes a) :
    Completes text first before (pure a : Reading α) nodes := by
  subst h
  exact meets_pure fun _ hline => hline

theorem failing {nodes : α -> List Node} :
    Completes text first before (fail : Reading α) nodes :=
  meets_fail

theorem halting {f : α -> Reading β} {nodes : β -> List Node} :
    Completes text first before (fail >>= f) nodes := by
  have hnever : (fail : Reading α).Meets text (fun line => LaidOut first before line)
      fun _ _ => False := meets_fail
  exact meets_bind hnever fun _ _ _ hfalse => hfalse.elim

theorem choosing {r s : Reading α} {nodes : α -> List Node}
    (hr : Completes text first before r nodes) (hs : Completes text first before s nodes) :
    Completes text first before (r <|> s) nodes :=
  meets_orElse hr hs

/-- What is read can be kept in part. -/
theorem keeping {r : Reading α} {nodes kept : α -> List Node} (hr : Yields text r nodes)
    (h : forall first a last, LaidOut first (nodes a) last -> LaidOut first (kept a) last) :
    Yields text r kept := by
  intro first
  exact meets_imp (hr first) (fun _ hline => hline) fun a last => h first a last

theorem dropping {r : Reading α} {nodes : α -> List Node} (hr : Yields text r nodes) :
    Passes text r :=
  keeping hr fun _ _ _ h => laidOut_nil (inOrder_le h.order)

theorem withRole_reads {r : Reading Node} (role : Role) (hr : ReadsNode text r) :
    Yields text r fun n => [n.withRole role] :=
  keeping hr fun _ _ _ h => laidOut_withRole role h

/-- The nodes that were read become the children of a new node. -/
theorem branching {kind : Kind} {cs : List Node} (hplain : kind.isPlain = true)
    (h : before = cs) :
    Completes text first before (pure (branch kind first cs)) fun n => [n] := by
  subst h
  apply meets_pure
  intro line hline
  exact laidOut_node (l := ⟨kind, none, first, ""⟩) hplain hline

theorem enclosing {kind : Kind} {n : Node} {ns cs : List Node} (hplain : kind.isPlain = true)
    (h : n :: ns = cs) :
    Completes text first (n :: ns) (pure (branch kind n.line cs)) fun n => [n] := by
  subst h
  apply meets_pure
  intro line hline
  exact laidOut_enclosed hplain hline

theorem leaving {kind : Kind} {s : String} (hplain : kind.isPlain = true) :
    Completes text first [] (pure (leaf kind first s)) fun n => [n] := by
  apply meets_pure
  intro line hline
  exact laidOut_node (l := ⟨kind, none, first, s⟩) hplain hline

/-!
# Choices by a condition
-/

section

variable {c : Prop} [Decidable c] {nodes : α -> List Node}

theorem completes_ite {r s : Reading α} (hr : Completes text first before r nodes)
    (hs : Completes text first before s nodes) :
    Completes text first before (if c then r else s) nodes := by
  split
  · exact hr
  · exact hs

theorem yields_ite {r s : Reading α} (hr : Yields text r nodes) (hs : Yields text s nodes) :
    Yields text (if c then r else s) nodes :=
  fun first => completes_ite (hr first) (hs first)

/-- Both branches go on in the same way. -/
theorem joining {r s : Reading β} {f : β -> Reading α} {more : β -> List Node}
    (hr : Yields text r more) (hs : Yields text s more)
    (hf : forall b, Completes text first (before ++ more b) (f b) nodes) :
    Completes text first before (if c then r >>= f else s >>= f) nodes :=
  completes_ite (taking hr hf) (taking hs hf)

/-- Both branches go on in the same way, the first one after a mark. -/
theorem joining_marked {mark : Reading γ} {r s : Reading β} {f : β -> Reading α}
    {more : β -> List Node} (hmark : Passes text mark) (hr : Yields text r more)
    (hs : Yields text s more)
    (hf : forall b, Completes text first (before ++ more b) (f b) nodes) :
    Completes text first before (if c then mark >>= fun _ => r >>= f else s >>= f) nodes :=
  completes_ite (passing hmark fun _ => taking hr hf) (taking hs hf)

/-- Something is passed first, or not. -/
theorem sometimes {r : Reading β} {s : Reading α} (hr : Passes text r)
    (hs : Completes text first before s nodes) :
    Completes text first before (if c then r >>= fun _ => s else s) nodes :=
  completes_ite (passing hr fun _ => hs) hs

end

/-!
# Parts that may be missing or repeated
-/

theorem pure_yields {a : α} {nodes : α -> List Node} (h : nodes a = []) :
    Yields text (pure a : Reading α) nodes :=
  fun _ => ending h.symm

theorem fail_yields {nodes : α -> List Node} : Yields text (fail : Reading α) nodes :=
  fun _ => failing

theorem orElse_yields {r s : Reading α} {nodes : α -> List Node} (hr : Yields text r nodes)
    (hs : Yields text s nodes) : Yields text (r <|> s) nodes :=
  fun first => choosing (hr first) (hs first)

/-- The same reading without or with a mark before it. -/
theorem marked_yields {r : Reading α} {mark : Reading β} {nodes : α -> List Node}
    (hr : Yields text r nodes) (hmark : Passes text mark) :
    Yields text (r <|> (do let _ ← mark; r)) nodes :=
  orElse_yields hr fun first => passing hmark fun _ => hr first

theorem guard_passes (b : Bool) : Passes text (guard b) := by
  intro first
  unfold Reading.guard
  exact completes_ite (ending rfl) failing

theorem point_passes : Passes text point :=
  fun _ _ hp hline => ⟨hp, hline⟩

theorem ahead_passes (r : Reading α) : Passes text (ahead r) := by
  intro first p hp hline
  unfold ahead
  split
  · exact ⟨hp, hline⟩
  · exact ⟨hp, hline⟩

/-- A reading that is tried only if what lies ahead allows it. -/
theorem expecting {r : Reading β} {test : Bool -> Bool} {s : Reading α} {nodes : α -> List Node}
    (hs : Completes text first before s nodes) :
    Completes text first before (ahead r >>= fun found => guard (test found) >>= fun _ => s) nodes :=
  passing (ahead_passes r) fun _ => passing (guard_passes _) fun _ => hs

theorem advance_passes (n : Nat) : Passes text (advance n) := by
  intro first p hp hline
  rcases Point.on_drop hp n with ⟨hon, hle⟩
  exact ⟨hon, laidOut_nil (Nat.le_trans (inOrder_le hline.order) hle)⟩

theorem map_yields {r : Reading α} {f : α -> β} {nodes : β -> List Node}
    (hr : Yields text r fun a => nodes (f a)) : Yields text (f <$> r) nodes := by
  intro first
  show Completes text first [] (r >>= fun a => pure (f a)) nodes
  exact taking hr fun a => ending rfl

theorem optional_yields {r : Reading α} {nodes : α -> List Node} {all : Option α -> List Node}
    (hr : Yields text r nodes) (hsome : forall a, all (some a) = nodes a) (hnone : all none = []) :
    Yields text (optional r) all := by
  apply orElse_yields
  · apply map_yields
    simp only [hsome]
    exact hr
  · exact pure_yields hnone

theorem optional_passes {r : Reading α} (hr : Passes text r) : Passes text (optional r) :=
  optional_yields hr (fun _ => rfl) rfl

theorem optional_node {r : Reading Node} (hr : ReadsNode text r) :
    Yields text (optional r) Option.toList :=
  optional_yields hr (fun _ => rfl) rfl

theorem optional_withRole {r : Reading Node} (role : Role) (hr : ReadsNode text r) :
    Yields text (optional r) fun found => (found.map (·.withRole role)).toList :=
  optional_yields (withRole_reads role hr) (fun _ => rfl) rfl

theorem optional_nodes {r : Reading (List Node)} (hr : ReadsNodes text r) :
    Yields text (optional r) fun ns => ns.getD [] :=
  optional_yields hr (fun _ => rfl) rfl

theorem many_yields {r : Reading α} {nodes : α -> List Node} (hr : Yields text r nodes) :
    Yields text (many r) fun as => as.flatMap nodes := by
  intro first
  have hround : forall as : List α,
      r.Meets text (fun line => LaidOut first (as.flatMap nodes) line)
        fun a line => LaidOut first ((as ++ [a]).flatMap nodes) line := by
    intro as
    simp only [List.flatMap_append, List.flatMap_singleton]
    exact completes_append hr
  exact meets_many hround

theorem many_passes {r : Reading α} (hr : Passes text r) : Passes text (many r) :=
  dropping (many_yields hr)

theorem many_nodes {r : Reading Node} (hr : ReadsNode text r) : ReadsNodes text (many r) := by
  have h := many_yields hr
  simpa using h

theorem many_lists {r : Reading (List Node)} (hr : ReadsNodes text r) :
    Yields text (many r) List.flatten := by
  have h := many_yields hr
  simpa [List.flatMap_id] using h

theorem sepBy1_yields {r : Reading α} {sep : Reading β} {nodes : α -> List Node}
    (hr : Yields text r nodes) (hsep : Passes text sep) :
    Yields text (sepBy1 r sep) fun as => as.flatMap nodes := by
  intro first
  apply taking hr
  intro a
  apply taking (many_yields fun first => passing hsep fun _ => hr first)
  intro as
  exact ending (by simp)

theorem sepBy1_passes {r : Reading α} {sep : Reading β} (hr : Passes text r)
    (hsep : Passes text sep) : Passes text (sepBy1 r sep) :=
  dropping (sepBy1_yields hr hsep)

theorem sepBy1_nodes {r : Reading Node} {sep : Reading β} (hr : ReadsNode text r)
    (hsep : Passes text sep) : ReadsNodes text (sepBy1 r sep) := by
  have h := sepBy1_yields hr hsep
  simpa using h

end
end Syntax
end JsxUsage
