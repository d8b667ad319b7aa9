import JsxUsage.Proofs.NodeReadings
import Mathlib.Data.List.Basic

/-!
# Readings of lexemes

Lexemes carry no nodes of their own: a reading of one passes some of the text.  What is
built on them first are the leaves of a tree, lists with separators and templates.
-/

namespace JsxUsage
namespace Syntax

open Text (Mark Point Reply Reading)
open Text.Reading
open Node

variable {text : List Char} {α : Type}

namespace Lexeme

theorem on_skipUpTo (page : Bool) (budget : Nat) {p : Point} (hp : p.On text) :
    (skipUpTo page budget p).On text ∧ p.line ≤ (skipUpTo page budget p).line := by
  induction budget generalizing p with
  | zero => exact ⟨hp, Nat.le_refl _⟩
  | succ budget ih =>
      unfold skipUpTo
      split
      · exact ⟨hp, Nat.le_refl _⟩
      · rcases Point.on_drop hp (skipStep page p.rest) with ⟨hon, hle⟩
        rcases ih hon with ⟨hlast, hmore⟩
        exact ⟨hlast, Nat.le_trans hle hmore⟩

theorem skipWith_passes (page : Bool) : Passes text (skipWith page) := by
  intro first p hp hline
  rcases on_skipUpTo page p.bound hp with ⟨hon, hle⟩
  exact ⟨hon, laidOut_nil (Nat.le_trans (inOrder_le hline.order) hle)⟩

theorem skip_passes : Passes text skip :=
  skipWith_passes false

/-- The line of the next lexeme is where the nodes that are read from there on begin. -/
theorem starting {f : Nat -> Reading α} {nodes : α -> List Node}
    (hf : forall start, Completes text start [] (f start) nodes) :
    Yields text (line >>= f) nodes := by
  intro first p hp hline
  rcases on_skipUpTo false p.bound hp with ⟨hon, hle⟩
  have hstart := Nat.le_trans (inOrder_le hline.order) hle
  have hreply := hf _ _ hon (laidOut_nil (Nat.le_refl _))
  show Reply.Meets text _ (f (skipUpTo false p.bound p).line (skipUpTo false p.bound p))
  cases hrun : f (skipUpTo false p.bound p).line (skipUpTo false p.bound p) with
  | done a next =>
      rw [hrun] at hreply
      exact ⟨hreply.left, laidOut_mono_first hreply.right hstart⟩
  | stuck m =>
      rw [hrun] at hreply
      exact hreply

/-- A question about the text that passes nothing. -/
theorem asking_passes {ask : Point -> α} : Passes text (fun p => .done (ask p) p) :=
  fun _ _ hp hline => ⟨hp, hline⟩

theorem upcoming_passes : Passes text upcoming :=
  asking_passes

theorem newlineAhead_passes : Passes text newlineAhead :=
  asking_passes

theorem atInserted_passes (typed operand : Bool) : Passes text (atInserted typed operand) :=
  asking_passes

theorem nextSymbol_passes : Passes text nextSymbol :=
  asking_passes

theorem nextWord_passes : Passes text nextWord :=
  asking_passes

theorem atSymbol_passes (s : String) : Passes text (atSymbol s) :=
  asking_passes

theorem atWord_passes (w : String) : Passes text (atWord w) :=
  asking_passes

theorem symbol_passes (s : String) : Passes text (symbol s) :=
  fun first => passing skip_passes fun _ => passing point_passes fun _ =>
    completes_ite (advance_passes _ first) failing

theorem chars_passes (s : String) : Passes text (chars s) :=
  fun first => passing skip_passes fun _ => passing point_passes fun _ =>
    completes_ite (advance_passes _ first) failing

theorem keyword_passes (w : String) : Passes text (keyword w) :=
  fun first => passing skip_passes fun _ => passing point_passes fun _ =>
    completes_ite (advance_passes _ first) failing

theorem word_passes : Passes text word := by
  intro first
  refine passing skip_passes fun _ => passing point_passes fun p => ?_
  dsimp only
  split
  · exact failing
  · exact passing (advance_passes _) fun _ => ending rfl

theorem privateName_passes : Passes text privateName := by
  intro first
  refine passing skip_passes fun _ => passing point_passes fun p => ?_
  split
  · split
    · exact failing
    · exact passing (advance_passes _) fun _ => ending rfl
  · exact failing

theorem number_passes : Passes text number := by
  intro first
  refine passing skip_passes fun _ => passing point_passes fun p => ?_
  split
  · exact failing
  · exact advance_passes _ first

theorem quoted_passes : Passes text quoted := by
  intro first
  refine passing skip_passes fun _ => passing point_passes fun p => ?_
  split
  · split
    · split
      · exact passing (advance_passes _) fun _ => ending rfl
      · exact failing
    · exact failing
  · exact failing

theorem slashed_passes : Passes text slashed := by
  intro first
  refine passing skip_passes fun _ => passing point_passes fun p => ?_
  split
  · split
    · exact advance_passes _ first
    · exact failing
  · exact failing

theorem semicolon_passes (typed operand : Bool) : Passes text (semicolon typed operand) := by
  intro first p hp hline
  unfold semicolon
  split
  · exact ⟨hp, hline⟩
  · exact symbol_passes ";" first p hp hline

end Lexeme

namespace Grammar

open Lexeme

variable {g : Grammar}

/-- Every goal that the grammar reaches is read soundly. -/
def IsSound (text : List Char) (g : Grammar) : Prop :=
  forall goal, ReadsNode text (g.reach goal)

theorem ends_passes (operand : Bool) : Passes text (g.ends operand) :=
  semicolon_passes g.typed operand

/-!
# Lists
-/

theorem holes_reads {item : Reading Node} (h : ReadsNode text item) :
    ReadsNodes text (holes item) := by
  intro first
  apply taking (optional_node h)
  intro head
  have hitem : Yields text (symbol "," >>= fun _ => optional item) Option.toList :=
    fun first => passing (symbol_passes ",") fun _ => optional_node h first
  apply taking (many_yields hitem)
  intro others
  apply ending
  cases head with
  | none => simp [List.filterMap_eq_flatMap_toList]
  | some n => simp [List.filterMap_eq_flatMap_toList]

theorem listed_reads {item : Reading Node} (h : ReadsNode text item) :
    ReadsNodes text (listed item) :=
  fun _ => taking (sepBy1_nodes h (symbol_passes ",")) fun _ =>
    passing (optional_passes (symbol_passes ",")) fun _ => ending rfl

theorem sequence_reads (hg : g.IsSound text) (mode : Mode) :
    ReadsNode text (g.sequence mode) := by
  apply starting
  intro start
  apply taking (sepBy1_nodes (hg _) (symbol_passes ","))
  intro items
  split
  · exact ending rfl
  · exact branching rfl rfl

/-!
# Leaves
-/

theorem name_reads : ReadsNode text name :=
  starting fun _ => passing word_passes fun _ => leaving rfl

theorem quotation_reads : ReadsNode text quotation :=
  starting fun _ => passing quoted_passes fun _ => leaving rfl

theorem numeral_reads : ReadsNode text numeral :=
  starting fun _ => passing number_passes fun _ => leaving rfl

/-!
# Expressions between marks
-/

theorem spread_reads (hg : g.IsSound text) :
    ReadsNode text (optional (symbol "...") >>= fun _ => g.inner) :=
  fun first => passing (optional_passes (symbol_passes _)) fun _ => hg _ first

theorem arguments_reads (hg : g.IsSound text) : ReadsNode text g.arguments :=
  starting fun _ =>
    passing (symbol_passes _) fun _ =>
    taking (holes_reads (spread_reads hg)) fun _ =>
    passing (symbol_passes _) fun _ =>
    branching rfl rfl

theorem initializer_reads (hg : g.IsSound text) (mode : Mode) :
    ReadsNode text (g.initializer mode) :=
  fun first => passing (symbol_passes _) fun _ => hg _ first

theorem propertyName_reads (hg : g.IsSound text) : ReadsNode text g.propertyName := by
  refine orElse_yields name_reads (orElse_yields quotation_reads
    (orElse_yields numeral_reads (orElse_yields ?hidden ?computed)))
  case hidden => exact starting fun _ => passing privateName_passes fun _ => leaving rfl
  case computed =>
    exact fun _ =>
      passing (symbol_passes _) fun _ =>
      taking (hg _) fun _ =>
      passing (symbol_passes _) fun _ =>
      ending rfl

/-!
# Templates
-/

theorem templatePiece_reads {content : Reading Node} (h : ReadsNode text content) :
    ReadsNodes text (templatePiece content) := by
  intro first
  refine passing point_passes fun p => ?_
  dsimp only
  split
  · split
    · exact passing (advance_passes 2) fun _ =>
        taking h fun _ =>
        passing (symbol_passes _) fun _ =>
        ending rfl
    · split
      · exact failing
      · exact passing (advance_passes _) fun _ => ending rfl
  · exact passing (advance_passes _) fun _ => ending rfl

theorem templateOf_reads {content : Reading Node} (h : ReadsNode text content) :
    ReadsNode text (templateOf content) := by
  apply starting
  intro start
  refine passing (symbol_passes _) fun _ =>
    taking (many_lists (templatePiece_reads h)) fun pieces =>
    passing point_passes fun p => ?_
  split
  · exact passing (advance_passes 1) fun _ => branching rfl rfl
  · exact failing

theorem template_reads (hg : g.IsSound text) : ReadsNode text g.template :=
  templateOf_reads (sequence_reads hg _)

end Grammar
end Syntax
end JsxUsage
