import JsxUsage.Proofs.StatementReadings
import JsxUsage.Syntax.Grammar.Modules

/-!
# Readings of programs

A goal is read by its rule, and the goals inside it one level deeper.  Each rule is sound
if the goals that it reaches are, so by induction on the depth every goal is.  A program is
a list of statements, maybe with an error behind them: the place that stopped the reading
lies behind all that was read.  So the tree of every text is in order, and its markup
follows the grammar.
-/

namespace JsxUsage
namespace Syntax

open Text (Mark Point Reply Reading)

namespace Grammar

open Text.Reading Lexeme
open Node

variable {text : List Char} {g : Grammar}

/-!
# Imports
-/

theorem fromClause_reads : ReadsNode text fromClause :=
  fun _ =>
    passing (keyword_passes _) fun _ =>
    taking (withRole_reads .source quotation_reads) fun _ =>
    ending rfl

theorem namespaceImport_reads : ReadsNode text namespaceImport :=
  starting fun _ =>
    passing (symbol_passes _) fun _ =>
    passing (keyword_passes _) fun _ =>
    taking name_reads fun _ =>
    branching rfl rfl

theorem plainSpecifier_reads : ReadsNodes text plainSpecifier := by
  have hrenamed : ReadsNode text (do
      keyword "as"
      return (← name).withRole .localName) :=
    fun _ =>
      passing (keyword_passes _) fun _ =>
      taking (withRole_reads .localName name_reads) fun _ =>
      ending rfl
  refine fun _ =>
    taking (orElse_yields ?named ?quoted) fun _ =>
    passing (atSymbol_passes _) fun _ =>
    passing (atSymbol_passes _) fun _ =>
    passing (guard_passes _) fun _ =>
    ending rfl
  case named =>
    exact fun _ =>
      taking (withRole_reads .name name_reads) fun _ =>
      taking (optional_node hrenamed) fun _ =>
      ending rfl
  case quoted =>
    exact fun _ =>
      taking (withRole_reads .name quotation_reads) fun _ =>
      taking hrenamed fun _ =>
      ending rfl

theorem typeMark_passes : Passes text g.typeMark :=
  fun first =>
    passing (guard_passes _) fun _ => orElse_yields (keyword_passes _) (keyword_passes _) first

theorem importSpecifier_reads : ReadsNode text g.importSpecifier :=
  starting fun _ =>
    taking (marked_yields plainSpecifier_reads typeMark_passes) fun _ =>
    branching rfl rfl

theorem namedImports_reads : ReadsNode text g.namedImports :=
  starting fun _ =>
    passing (symbol_passes _) fun _ =>
    taking (optional_nodes (listed_reads importSpecifier_reads)) fun _ =>
    passing (symbol_passes _) fun _ =>
    branching rfl rfl

theorem importClause_reads : ReadsNode text g.importClause := by
  have hgroup : ReadsNode text (namespaceImport <|> g.namedImports) :=
    orElse_yields namespaceImport_reads namedImports_reads
  refine starting fun _ =>
    taking (orElse_yields ?alone ?after) fun _ =>
    branching rfl rfl
  case alone => exact fun _ => taking hgroup fun _ => ending rfl
  case after =>
    exact fun _ =>
      taking name_reads fun _ =>
      taking (optional_node fun first => passing (symbol_passes _) fun _ => hgroup first) fun _ =>
      ending rfl

theorem importAttributes_reads (hg : g.IsSound text) : ReadsNode text g.importAttributes :=
  fun first =>
    passing (orElse_yields (keyword_passes _) (keyword_passes _)) fun _ => object_reads hg first

theorem importStatement_reads (hg : g.IsSound text) : ReadsNode text g.importStatement := by
  refine starting fun _ =>
    passing (keyword_passes _) fun _ =>
    taking (orElse_yields (fun first => passing typeMark_passes fun _ => ?any first) ?any) fun _ =>
    taking (optional_node (importAttributes_reads hg)) fun _ =>
    passing (ends_passes _) fun _ =>
    branching rfl rfl
  refine orElse_yields ?bound (orElse_yields ?plain ?required)
  case bound =>
    exact fun _ => taking importClause_reads fun _ => taking fromClause_reads fun _ => ending rfl
  case plain =>
    exact fun _ => taking (withRole_reads .source quotation_reads) fun _ => ending rfl
  case required =>
    exact fun _ =>
      passing (guard_passes _) fun _ =>
      passing word_passes fun _ =>
      passing (symbol_passes _) fun _ =>
      passing (keyword_passes _) fun _ =>
      passing (symbol_passes _) fun _ =>
      passing quoted_passes fun _ =>
      passing (symbol_passes _) fun _ =>
      ending rfl

/-!
# Exports
-/

theorem exportName_reads : ReadsNode text exportName :=
  orElse_yields name_reads quotation_reads

theorem renamedExport_reads :
    ReadsNode text (do keyword "as"; exportName) :=
  fun first => passing (keyword_passes _) fun _ => exportName_reads first

theorem exportSpecifier_reads : ReadsNode text g.exportSpecifier := by
  have hplain : ReadsNodes text (do
      let source ← exportName
      let target ← optional (do keyword "as"; exportName)
      guard ((← atSymbol ",") || (← atSymbol "\x7d"))
      return source :: target.toList) :=
    fun _ =>
      taking exportName_reads fun _ =>
      taking (optional_node renamedExport_reads) fun _ =>
      passing (atSymbol_passes _) fun _ =>
      passing (atSymbol_passes _) fun _ =>
      passing (guard_passes _) fun _ =>
      ending rfl
  exact starting fun _ =>
    passing (dropping (marked_yields hplain typeMark_passes)) fun _ =>
    branching rfl rfl

theorem exportedNames_reads : ReadsNodes text g.exportedNames :=
  fun _ =>
    passing (symbol_passes _) fun _ =>
    passing (dropping (optional_nodes (listed_reads exportSpecifier_reads))) fun _ =>
    passing (symbol_passes _) fun _ =>
    taking (optional_node fromClause_reads) fun _ =>
    passing (ends_passes _) fun _ =>
    ending rfl

theorem exportedModule_reads : ReadsNodes text g.exportedModule :=
  fun _ =>
    passing (symbol_passes _) fun _ =>
    passing (dropping (optional_node renamedExport_reads)) fun _ =>
    taking fromClause_reads fun _ =>
    passing (ends_passes _) fun _ =>
    ending rfl

theorem declarationAlone_reads (hg : g.IsSound text) :
    ReadsNodes text (do return [← g.declaration]) :=
  fun _ => taking (declaration_reads hg) fun _ => ending rfl

theorem exportedDefault_reads (hg : g.IsSound text) : ReadsNodes text g.exportedDefault := by
  refine fun first =>
    passing (keyword_passes _) fun _ =>
    choosing (declarationAlone_reads hg first) ?value
  exact taking (withRole_reads .value (hg _)) fun _ => passing (ends_passes _) fun _ => ending rfl

theorem exportedTyped_reads (hg : g.IsSound text) : ReadsNodes text g.exportedTyped := by
  refine orElse_yields ?names (orElse_yields ?value ?space)
  case names => exact fun first => passing (keyword_passes _) fun _ => exportedNames_reads first
  case value =>
    exact fun _ =>
      passing (symbol_passes _) fun _ =>
      taking (hg _) fun _ =>
      passing (ends_passes _) fun _ =>
      ending rfl
  case space =>
    exact fun _ =>
      passing (keyword_passes _) fun _ =>
      passing (keyword_passes _) fun _ =>
      passing word_passes fun _ =>
      passing (ends_passes _) fun _ =>
      ending rfl

theorem exportStatement_completes (hg : g.IsSound text) (start : Nat) (decorators : List Node) :
    Completes text start decorators (g.exportStatement start decorators) fun n => [n] := by
  refine passing (keyword_passes _) fun _ =>
    taking (orElse_yields exportedNames_reads (orElse_yields exportedModule_reads
      (orElse_yields (exportedDefault_reads hg) (orElse_yields ?typed
        (orElse_yields ?decorated (declarationAlone_reads hg)))))) fun _ =>
    branching rfl rfl
  case typed => exact fun first => passing (guard_passes _) fun _ => exportedTyped_reads hg first
  case decorated =>
    -- The class starts with its own decorators, behind the word that exports it.
    exact fun first =>
      passing (atSymbol_passes _) fun _ =>
      passing (guard_passes _) fun _ =>
      starting (fun start =>
        taking (many_nodes (decorator_reads hg)) fun more =>
        meets_bind (classDeclaration_completes hg start more) fun _ =>
        ending rfl) first

/-!
# Statements of any kind
-/

theorem decoratedStatement_reads (hg : g.IsSound text) : ReadsNode text g.decoratedStatement :=
  starting fun start =>
    taking (many_nodes (decorator_reads hg)) fun decorators =>
    passing nextWord_passes fun _ =>
    completes_ite (exportStatement_completes hg start decorators)
      (classDeclaration_completes hg start decorators)

theorem wordStatement_reads (hg : g.IsSound text) (w : String) :
    ReadsNode text (g.wordStatement w) := by
  refine starting fun start => ?_
  split
  · rename_i body hbody
    exact taking (controlStatement_reads hg hbody) fun _ => branching rfl rfl
  · split
    · exact exportStatement_completes hg start []
    · refine passing (ahead_passes _) fun _ =>
        completes_ite (expressionStatement_reads hg start)
          (choosing (importStatement_reads hg start) ?renamed)
      exact passing (guard_passes _) fun _ => importAlias_reads start
    · refine passing (ahead_passes _) fun _ =>
        completes_ite (labelled_reads hg start) (choosing (declaration_reads hg start) ?value)
      exact passing (guard_passes _) fun _ =>
        expecting <| passing (guard_passes _) fun _ =>
        expecting <| expecting (expressionStatement_reads hg start)

theorem statementRule_reads (hg : g.IsSound text) : ReadsNode text g.statementRule := by
  refine fun first =>
    passing (skipWith_passes _) fun _ =>
    starting (fun start => passing upcoming_passes fun ahead => ?_) first
  split
  · exact choosing (hg _ start) (expecting (expressionStatement_reads hg start))
  · exact passing (symbol_passes _) fun _ => branching rfl rfl
  · exact choosing (decoratedStatement_reads hg start) (expressionStatement_reads hg start)
  · exact failing
  · refine passing nextWord_passes fun w => ?_
    split
    · exact expressionStatement_reads hg start
    · exact wordStatement_reads hg _ start

theorem rule_reads (hg : g.IsSound text) (goal : Goal) : ReadsNode text (g.rule goal) := by
  cases goal with
  | statement => exact statementRule_reads hg
  | block => exact blockRule_reads hg
  | expression mode => exact expressionRule_reads hg mode
  | element => exact elementRule_reads hg
  | pattern => exact patternRule_reads hg
  | typeExpression => exact typeRule_reads hg

end Grammar

/-!
# Programs
-/

open Text.Reading Grammar Node

variable {text : List Char}

/-- Every goal is sound, however deep the goals inside it may lie. -/
theorem reachUpTo_reads (typed : Bool) (depth : Nat) (goal : Goal) :
    ReadsNode text (reachUpTo typed depth goal) := by
  induction depth generalizing goal with
  | zero => exact fail_yields
  | succ depth ih => exact rule_reads (g := Grammar.mk typed (reachUpTo typed depth)) ih goal

theorem skipHashBang_passes : Passes text skipHashBang := by
  refine fun first => passing Lexeme.skip_passes fun _ => passing point_passes fun p => ?_
  split
  · exact advance_passes _ first
  · exact ending rfl

/-- The statements lie in order before the point after the last one. -/
theorem statements_meets (typed : Bool) :
    (statements typed).Meets text (fun line => LaidOut 1 [] line) fun found _ =>
      found.2.On text ∧ LaidOut 1 found.1 found.2.line := by
  refine meets_bind (completes_append skipHashBang_passes) fun _ =>
    meets_bind (completes_append point_passes) fun p =>
    meets_bind (completes_append (many_nodes (reachUpTo_reads typed _ _))) fun items =>
    meets_bind (completes_append (Lexeme.skipWith_passes _)) fun _ => ?_
  -- The point that is given back is the one where the reading ends.
  intro last hlast hline
  rw [List.append_nil] at hline
  exact ⟨hlast, hlast, hline⟩

theorem line_le_stopLine {p : Point} (hp : p.On text) : p.line ≤ stopLine p := by
  unfold stopLine
  split
  · exact Mark.line_le hp.mark (Mark.on_later hp.deepest hp.mark) (Mark.offset_le_later _ _)
  · exact Nat.le_refl _

theorem laidOut_error {first line : Nat} (h : first ≤ line) :
    LaidOut first [branch .error line []] line :=
  laidOut_mono_first
    (laidOut_node (l := ⟨.error, none, line, ""⟩) rfl (laidOut_nil (Nat.le_refl line))) h

theorem laidOut_program {items : List Node} {last : Nat} (h : LaidOut 1 items last) :
    LaidOut 1 [branch .program 1 items] last :=
  laidOut_node (l := ⟨.program, none, 1, ""⟩) rfl h

/-- The tree of every text starts on the first line, whether the text could be read or not. -/
theorem laidOut_parse (dialect : Dialect) (text : String) :
    exists last, LaidOut 1 [parse dialect text] last := by
  have hreply := statements_meets dialect.isTyped (Point.first text.toList)
    (Point.on_first text.toList) (laidOut_nil (Nat.le_refl 1))
  unfold parse
  cases hrun : statements dialect.isTyped (Point.first text.toList) with
  | done found next =>
      rw [hrun] at hreply
      rcases found with ⟨items, last⟩
      rcases hreply.right with ⟨hlast, hitems⟩
      dsimp only
      split
      · exact ⟨_, laidOut_program hitems⟩
      · have herror := laidOut_error (line_le_stopLine hlast)
        exact ⟨_, laidOut_program (laidOut_append hitems herror)⟩
  | stuck m =>
      rw [hrun] at hreply
      have hfirst : 1 ≤ m.line := by
        rw [show m.line = Text.lineAt text.toList m.offset from hreply]
        exact Nat.le_add_right 1 _
      exact ⟨_, laidOut_program (laidOut_error hfirst)⟩

theorem followsMarkup_parse (dialect : Dialect) (text : String) :
    (parse dialect text).FollowsMarkup := by
  rcases laidOut_parse dialect text with ⟨last, h⟩
  exact h.markup _ List.mem_cons_self

theorem isInOrder_parse (dialect : Dialect) (text : String) : (parse dialect text).IsInOrder := by
  rcases laidOut_parse dialect text with ⟨last, h⟩
  exact ⟨1, last, h.order⟩

end Syntax
end JsxUsage
