import JsxUsage.Proofs.TypeReadings
import JsxUsage.Syntax.Grammar.Markup

/-!
# Readings of markup

The rules for elements are the only ones that make opening tags, elements and tags that
close themselves.  An opening tag becomes the first child of its element at once, and the
content of a tag begins with the tag's name, so what is read follows the grammar of markup.
-/

namespace JsxUsage
namespace Syntax

open Text (Mark Point Reply Reading)
open Text.Reading

variable {text : List Char}

/-!
# Elements from their parts
-/

namespace Node

theorem inOrder_split {first last : Nat} {ns ms : List Node} (h : InOrder first (ns ++ ms) last) :
    exists middle, InOrder first ns middle ∧ InOrder middle ms last := by
  induction ns generalizing first with
  | nil => exact ⟨first, InOrder.none (Nat.le_refl _), h⟩
  | cons n ns ih =>
      cases h with
      | next hline hcs hrest =>
          rcases ih hrest with ⟨middle, hns, hms⟩
          exact ⟨middle, InOrder.next hline hcs hns, hms⟩

/-- The content of a tag: a name and what follows it. -/
def IsTagContent (parts : List Node) : Prop :=
  exists name rest, parts = withRole name .name :: rest

theorem child?_name_of_isTagContent {l : Label} {parts : List Node} (h : IsTagContent parts) :
    exists name, (node l parts).child? .name = some name := by
  rcases h with ⟨name, rest, rfl⟩
  refine ⟨name.withRole .name, List.find?_cons_of_pos ?_⟩
  cases name
  rfl

theorem laidOut_selfClosing {start last : Nat} {parts : List Node} (hparts : IsTagContent parts)
    (h : LaidOut start parts last) :
    LaidOut start [branch .jsxSelfClosingElement start parts] last := by
  refine ⟨InOrder.next (Nat.le_refl _) h.order (InOrder.none (Nat.le_refl _)), ?_⟩
  intro n hn
  rw [List.mem_singleton.mp hn]
  apply followsMarkup_node
  · simp
  · constructor
    · intro _
      exact child?_name_of_isTagContent hparts
    · intro helement
      cases helement
    · intro c hc hopening
      exact absurd hopening (h.markup c hc).start
  · intro c hc
    exact (followsMarkup_iff.mp (h.markup c hc)).right

theorem fitsMarkup_opening {l : Label} {parts : List Node} (hkind : l.kind = .jsxOpeningElement)
    (hparts : forall c, c ∈ parts -> c.FollowsMarkup) : (node l parts).FitsMarkup := by
  have hnode : (node l parts).kind = .jsxOpeningElement := hkind
  constructor
  · intro hclosed
    rw [hnode] at hclosed
    cases hclosed
  · intro helement
    rw [hnode] at helement
    cases helement
  · intro c hc hopening
    exact absurd hopening (hparts c hc).start

/-- An element with its opening tag in front and other nodes behind it. -/
theorem followsMarkup_element {start : Nat} {parts rest : List Node}
    (hparts : forall c, c ∈ parts -> c.FollowsMarkup)
    (hrest : forall c, c ∈ rest -> c.FollowsMarkup) :
    (branch .jsxElement start
      ((branch .jsxOpeningElement start parts).withRole .openTag :: rest)).FollowsMarkup := by
  apply followsMarkup_node
  · simp
  · constructor
    · intro hclosed
      cases hclosed
    · intro _ tag htag
      cases htag
      rfl
    · intro c hc hopening
      rcases List.mem_cons.mp hc with rfl | hlater
      · exact ⟨rfl, rfl⟩
      · exact absurd hopening (hrest c hlater).start
  · intro c hc n hn
    rcases List.mem_cons.mp hc with rfl | hlater
    · rw [preorder_eq, List.mem_cons, List.mem_flatMap] at hn
      rcases hn with rfl | ⟨part, hpart, hbelow⟩
      · exact fitsMarkup_opening rfl hparts
      · exact (followsMarkup_iff.mp (hparts part hpart)).right n hbelow
    · exact (followsMarkup_iff.mp (hrest c hlater)).right n hn

theorem laidOut_element {start last : Nat} {parts rest : List Node}
    (h : LaidOut start (parts ++ rest) last) :
    LaidOut start [branch .jsxElement start
      ((branch .jsxOpeningElement start parts).withRole .openTag :: rest)] last := by
  rcases inOrder_split h.order with ⟨middle, hparts, hrest⟩
  constructor
  · exact InOrder.next (Nat.le_refl _) (InOrder.next (Nat.le_refl _) hparts hrest)
      (InOrder.none (Nat.le_refl _))
  · intro n hn
    rw [List.mem_singleton.mp hn]
    exact followsMarkup_element (fun c hc => h.markup c (List.mem_append_left rest hc))
      fun c hc => h.markup c (List.mem_append_right parts hc)

end Node

open Node

/-!
# Values that a reading can give
-/

section

variable {α β : Type} {holds : α -> Prop}

/-- Whatever the reading reads has the property. -/
def Gives (r : Reading α) (holds : α -> Prop) : Prop :=
  forall p a next, r p = .done a next -> holds a

theorem gives_pure {a : α} (h : holds a) : Gives (pure a : Reading α) holds := by
  intro p b next hrun
  cases hrun
  exact h

theorem gives_bind {r : Reading β} {f : β -> Reading α} (hf : forall b, Gives (f b) holds) :
    Gives (r >>= f) holds := by
  intro p a next hrun
  cases hfirst : r p with
  | done b middle =>
      rw [bind_of_done hfirst] at hrun
      exact hf b middle a next hrun
  | stuck m =>
      rw [bind_of_stuck hfirst] at hrun
      cases hrun

theorem gives_ite {c : Prop} [Decidable c] {r s : Reading α} (hr : Gives r holds)
    (hs : Gives s holds) : Gives (if c then r else s) holds := by
  split
  · exact hr
  · exact hs

theorem gives_orElse {r s : Reading α} (hr : Gives r holds) (hs : Gives s holds) :
    Gives (r <|> s) holds := by
  intro p a next hrun
  cases hfirst : r p with
  | done b middle =>
      rw [orElse_of_done hfirst] at hrun
      cases hrun
      exact hr p a next hfirst
  | stuck m =>
      rw [orElse_of_stuck hfirst] at hrun
      exact hs (p.note m) a next hrun

theorem gives_map {r : Reading β} {f : β -> α} (hr : Gives r fun b => holds (f b)) :
    Gives (f <$> r) holds := by
  intro p a next hrun
  change (r >>= fun b => pure (f b)) p = .done a next at hrun
  cases hfirst : r p with
  | done b middle =>
      rw [bind_of_done hfirst] at hrun
      cases hrun
      exact hr p b next hfirst
  | stuck m =>
      rw [bind_of_stuck hfirst] at hrun
      cases hrun

theorem gives_optional {r : Reading α} (hr : Gives r holds) :
    Gives (optional r) fun found => forall a, found = some a -> holds a := by
  apply gives_orElse
  · apply gives_map
    intro p a next hrun b hb
    cases hb
    exact hr p a next hrun
  · exact gives_pure (by simp)

theorem taking_given {r : Reading α} {f : α -> Reading β} {first : Nat} {before : List Node}
    {more : α -> List Node} {nodes : β -> List Node} (hr : Yields text r more)
    (hgives : Gives r holds)
    (hf : forall a, holds a -> Completes text first (before ++ more a) (f a) nodes) :
    Completes text first before (r >>= f) nodes := by
  intro p hp hbefore
  have hreply := completes_append hr p hp hbefore
  cases hrun : r p with
  | done a next =>
      rw [hrun] at hreply
      rw [bind_of_done hrun]
      exact hf a (hgives p a next hrun) next hreply.left hreply.right
  | stuck m =>
      rw [hrun] at hreply
      rw [bind_of_stuck hrun]
      exact hreply

/-- Nodes that are read from a point on begin on the line of the point. -/
theorem marking {f : Point -> Reading α} {nodes : α -> List Node}
    (hf : forall p, Completes text p.line [] (f p) nodes) : Yields text (point >>= f) nodes := by
  intro first p hp hline
  have hreply := hf p p hp (laidOut_nil (Nat.le_refl _))
  show (f p p).Meets text _
  cases hrun : f p p with
  | done a next =>
      rw [hrun] at hreply
      exact ⟨hreply.left, laidOut_mono_first hreply.right (inOrder_le hline.order)⟩
  | stuck m =>
      rw [hrun] at hreply
      exact hreply

end

namespace Grammar

open Lexeme

variable {g : Grammar}

/-!
# Names and attributes
-/

theorem tagWord_passes : Passes text tagWord := by
  refine fun _ => passing skip_passes fun _ => passing point_passes fun p => ?_
  dsimp only
  split
  · exact failing
  · exact passing (advance_passes _) fun _ => ending rfl

theorem tagName_reads : ReadsNode text tagName := by
  refine starting fun _ =>
    passing point_passes fun _ =>
    passing tagWord_passes fun _ =>
    choosing ?member (choosing ?spaced (leaving rfl))
  case member =>
    exact passing (guard_passes _) fun _ =>
      passing (many_passes fun first => passing (symbol_passes _) fun _ => word_passes first)
        fun _ =>
      passing (guard_passes _) fun _ =>
      leaving rfl
  case spaced =>
    exact passing (symbol_passes _) fun _ => passing tagWord_passes fun _ => leaving rfl

theorem attributeText_reads : ReadsNode text attributeText := by
  refine starting fun _ => passing point_passes fun p => ?_
  split
  · refine completes_ite ?_ failing
    refine passing (advance_passes 1) fun _ =>
      passing (many_passes ?piece) fun _ =>
      passing point_passes fun q => ?_
    case piece =>
      refine fun first => passing point_passes fun q => ?_
      dsimp only
      split
      · split
        · exact failing
        · exact advance_passes _ first
      · exact advance_passes _ first
    · dsimp only
      split
      · exact joining (advance_passes 1) fail_yields fun _ => leaving rfl
      · exact passing fail_yields fun _ => leaving rfl
  · exact failing

theorem braced_reads (hg : g.IsSound text) : ReadsNode text g.braced := by
  refine starting fun _ =>
    passing (symbol_passes _) fun _ =>
    taking (optional_node (orElse_yields ?spread (sequence_reads hg _))) fun _ =>
    passing (symbol_passes _) fun _ =>
    branching rfl rfl
  exact fun first => passing (symbol_passes _) fun _ => hg _ first

theorem tagAttribute_reads (hg : g.IsSound text) : ReadsNode text g.tagAttribute := by
  apply orElse_yields (braced_reads hg)
  refine starting fun _ =>
    passing tagWord_passes fun _ =>
    passing (optional_passes fun first =>
      passing (symbol_passes _) fun _ => tagWord_passes first) fun _ =>
    taking (optional_node ?value) fun _ =>
    branching rfl rfl
  exact fun first =>
    passing (chars_passes _) fun _ =>
    choosing (attributeText_reads first) (choosing (braced_reads hg first) (hg _ first))

/-!
# Children and closing tags
-/

theorem on_skipBetween (page : Bool) (budget : Nat) {p : Point} (hp : p.On text) :
    (skipBetween page budget p).On text ∧ p.line ≤ (skipBetween page budget p).line := by
  induction budget generalizing p with
  | zero => exact ⟨hp, Nat.le_refl _⟩
  | succ budget ih =>
      have hstay : p.On text ∧ p.line ≤ p.line := ⟨hp, Nat.le_refl _⟩
      have hgo : forall n, (skipBetween page budget (p.drop n)).On text ∧
          p.line ≤ (skipBetween page budget (p.drop n)).line := by
        intro n
        rcases Point.on_drop hp n with ⟨hon, hle⟩
        rcases ih hon with ⟨hlast, hmore⟩
        exact ⟨hlast, Nat.le_trans hle hmore⟩
      unfold skipBetween
      split
      · split
        · split
          · exact hgo _
          · exact hstay
        · split
          · exact hgo _
          · exact hstay
      · exact hgo _

theorem skipBetween_passes (page : Bool) :
    Passes text (fun p => Reply.done () (skipBetween page p.bound p) : Reading Unit) := by
  intro first p hp hline
  rcases on_skipBetween page p.bound hp with ⟨hon, hle⟩
  exact ⟨hon, laidOut_nil (Nat.le_trans (inOrder_le hline.order) hle)⟩

theorem child_reads (hg : g.IsSound text) : ReadsNode text g.child := by
  have htext : forall (first n : Nat), Completes text first []
      (advance n >>= fun _ => pure (leaf .jsxText first "")) fun m => [m] :=
    fun _ n => passing (advance_passes n) fun _ => leaving rfl
  refine fun first => passing (skipBetween_passes _) fun _ => marking (fun p => ?_) first
  split
  · exact braced_reads hg p.line
  · exact failing
  · exact hg _ p.line
  · split
    · exact failing
    · exact htext p.line _
  · split
    · exact failing
    · exact htext p.line _

theorem closingTag_reads : ReadsNode text g.closingTag := by
  refine fun first => passing (skipBetween_passes _) fun _ => starting (fun _ => ?_) first
  exact passing (chars_passes _) fun _ =>
    taking (optional_withRole .name tagName_reads) fun _ =>
    passing (chars_passes _) fun _ =>
    branching rfl rfl

/-!
# Elements
-/

theorem tagContent_reads (hg : g.IsSound text) : ReadsNodes text g.tagContent :=
  fun _ =>
    taking (withRole_reads .name tagName_reads) fun _ =>
    joining (optional_node (typeArguments_reads hg)) (pure_yields rfl) fun _ =>
    taking (many_nodes (tagAttribute_reads hg)) fun _ =>
    ending (by simp)

theorem tagContent_gives : Gives g.tagContent IsTagContent := by
  have hrest : forall (named : Node) (arguments : Option Node),
      Gives (many g.tagAttribute >>= fun attributes =>
        pure (named.withRole .name :: (arguments.toList ++ attributes))) IsTagContent :=
    fun named _ => gives_bind fun _ => gives_pure ⟨named, _, rfl⟩
  exact gives_bind fun named =>
    gives_ite (gives_bind fun arguments => hrest named arguments)
      (gives_bind fun arguments => hrest named arguments)

theorem elementRule_reads (hg : g.IsSound text) : ReadsNode text g.elementRule := by
  refine starting fun start =>
    passing (chars_passes _) fun _ =>
    taking_given (optional_nodes (tagContent_reads hg)) (gives_optional tagContent_gives)
      fun content hcontent =>
    passing (optional_passes (chars_passes _)) fun closed => ?_
  split
  · rename_i parts
    apply meets_pure
    intro line hline
    exact laidOut_selfClosing (hcontent parts rfl) hline
  · exact failing
  · refine passing (chars_passes _) fun _ =>
      taking (many_nodes (child_reads hg)) fun children =>
      taking closingTag_reads fun closing => ?_
    apply meets_pure
    intro line hline
    apply laidOut_element
    show LaidOut start (content.getD [] ++ (children ++ [closing])) line
    rw [← List.append_assoc]
    exact hline

end Grammar
end Syntax
end JsxUsage
