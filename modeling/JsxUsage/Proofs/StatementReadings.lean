import JsxUsage.Proofs.ExpressionReadings
import JsxUsage.Syntax.Grammar.Statements

/-!
# Readings of statements

The rules for declarations and for control are sound if the goals that they reach are.
Names, words and punctuation leave no nodes of their own; what a rule reads besides them
it keeps in the order of the text.
-/

namespace JsxUsage
namespace Syntax

open Text (Mark Point Reply Reading)

namespace Grammar

open Text.Reading Lexeme
open Node

variable {text : List Char} {g : Grammar}

/-!
# Variables
-/

theorem declarator_reads (hg : g.IsSound text) : ReadsNode text g.declarator := by
  refine starting fun _ =>
    taking (withRole_reads .name (binding_reads hg)) fun _ =>
    joining_marked (optional_passes ?present) (optional_node (annotation_reads hg))
      (pure_yields rfl) fun _ =>
    taking (optional_withRole .value (initializer_reads hg _)) fun _ =>
    branching rfl (by simp)
  exact fun first =>
    passing (symbol_passes _) fun _ =>
    passing (atSymbol_passes _) fun _ =>
    guard_passes _ first

theorem variableList_reads (hg : g.IsSound text) (w : String) {kind : Kind}
    (hplain : kind.isPlain = true) : ReadsNode text (g.variableList w kind) :=
  starting fun _ =>
    passing (keyword_passes _) fun _ =>
    taking (sepBy1_nodes (declarator_reads hg) (symbol_passes _)) fun _ =>
    passing (ends_passes _) fun _ =>
    branching hplain rfl

/-!
# Typed declarations
-/

theorem typeAlias_reads (hg : g.IsSound text) : ReadsNode text g.typeAlias :=
  starting fun _ =>
    passing (keyword_passes _) fun _ =>
    passing word_passes fun _ =>
    taking (optional_node (typeParameters_reads hg)) fun _ =>
    passing (symbol_passes _) fun _ =>
    taking (hg _) fun _ =>
    passing (ends_passes _) fun _ =>
    branching rfl rfl

theorem interface_reads (hg : g.IsSound text) : ReadsNode text g.interface := by
  refine starting fun _ =>
    passing (keyword_passes _) fun _ =>
    passing word_passes fun _ =>
    taking (optional_node (typeParameters_reads hg)) fun _ =>
    taking (optional_nodes ?bases) fun _ =>
    taking (objectType_reads hg) fun _ =>
    branching rfl rfl
  exact fun first =>
    passing (keyword_passes _) fun _ => sepBy1_nodes (hg _) (symbol_passes _) first

theorem enumeration_reads (hg : g.IsSound text) : ReadsNode text g.enumeration := by
  refine starting fun _ =>
    passing (optional_passes (keyword_passes _)) fun _ =>
    passing (keyword_passes _) fun _ =>
    passing word_passes fun _ =>
    passing (symbol_passes _) fun _ =>
    taking (optional_nodes (listed_reads ?item)) fun _ =>
    passing (symbol_passes _) fun _ =>
    branching rfl rfl
  exact starting fun _ =>
    taking (propertyName_reads hg) fun _ =>
    taking (optional_node (initializer_reads hg _)) fun _ =>
    branching rfl rfl

theorem dotted_passes : Passes text (sepBy1 word (symbol ".")) :=
  sepBy1_passes word_passes (symbol_passes _)

theorem namedSpace_reads (hg : g.IsSound text) : ReadsNode text g.namedSpace := by
  refine starting fun _ =>
    passing (orElse_yields (keyword_passes _) (keyword_passes _)) fun _ =>
    passing (orElse_yields ?quoted ?dotted) fun _ =>
    taking (optional_node (hg _)) fun _ =>
    branching rfl rfl
  case quoted => exact fun _ => passing quoted_passes fun _ => ending rfl
  case dotted => exact fun _ => passing dotted_passes fun _ => ending rfl

theorem importAlias_reads : ReadsNode text g.importAlias :=
  starting fun _ =>
    passing (keyword_passes _) fun _ =>
    passing word_passes fun _ =>
    passing (symbol_passes _) fun _ =>
    passing dotted_passes fun _ =>
    passing (ends_passes _) fun _ =>
    branching rfl rfl

theorem undecoratedClass_reads (hg : g.IsSound text) :
    ReadsNode text (do g.classDeclaration (← line) []) :=
  starting fun start => classDeclaration_completes hg start []

theorem typedDeclaration_reads (hg : g.IsSound text) : ReadsNode text g.typedDeclaration := by
  refine fun first => passing nextWord_passes fun w => ?_
  split
  · exact expecting (typeAlias_reads hg first)
  · exact interface_reads hg first
  · exact enumeration_reads hg first
  · exact expecting (enumeration_reads hg first)
  · exact expecting (namedSpace_reads hg first)
  · exact expecting (namedSpace_reads hg first)
  · exact undecoratedClass_reads hg first
  · exact importAlias_reads first
  · exact failing

/-!
# Declarations
-/

theorem plainDeclaration_reads (hg : g.IsSound text) : ReadsNode text g.plainDeclaration := by
  refine fun first => passing nextWord_passes fun w => ?_
  split
  · exact expecting (functionDeclaration_reads hg first)
  · exact expecting (functionDeclaration_reads hg first)
  · exact expecting (undecoratedClass_reads hg first)
  · exact variableList_reads hg _ rfl first
  · exact variableList_reads hg _ rfl first
  · exact expecting (variableList_reads hg _ rfl first)
  · exact failing

theorem ambient_reads (hg : g.IsSound text) : ReadsNode text g.ambient := by
  refine starting fun _ =>
    passing (keyword_passes _) fun _ =>
    taking (orElse_yields (typedDeclaration_reads hg)
      (orElse_yields (plainDeclaration_reads hg) ?everywhere)) fun _ =>
    branching rfl rfl
  exact fun first => passing (keyword_passes _) fun _ => hg _ first

theorem declaration_reads (hg : g.IsSound text) : ReadsNode text g.declaration := by
  refine yields_ite (orElse_yields ?ambient
    (orElse_yields (typedDeclaration_reads hg) (plainDeclaration_reads hg)))
    (plainDeclaration_reads hg)
  exact fun first =>
    passing nextWord_passes fun _ =>
    expecting (ambient_reads hg first)

/-!
# Control
-/

theorem condition_reads (hg : g.IsSound text) : ReadsNode text g.condition :=
  fun _ =>
    passing (symbol_passes _) fun _ =>
    taking (sequence_reads hg _) fun _ =>
    joining (dropping (optional_node (annotation_reads hg))) (pure_yields rfl) fun _ =>
    passing (symbol_passes _) fun _ =>
    ending rfl

theorem blockRule_reads (hg : g.IsSound text) : ReadsNode text g.blockRule :=
  starting fun _ =>
    passing (symbol_passes _) fun _ =>
    taking (many_nodes (hg _)) fun _ =>
    passing (symbol_passes _) fun _ =>
    branching rfl rfl

theorem conditional_reads (hg : g.IsSound text) : ReadsNodes text g.conditional :=
  fun _ =>
    passing (keyword_passes _) fun _ =>
    taking (condition_reads hg) fun _ =>
    taking (hg _) fun _ =>
    taking (optional_node fun first => passing (keyword_passes _) fun _ => hg _ first) fun _ =>
    ending rfl

theorem loopOver_reads (hg : g.IsSound text) : ReadsNodes text g.loopOver := by
  have hclosing : ReadsNode text (do
      (keyword "in" <|> keyword "of")
      let source ← g.sequence ⟨false, true⟩
      symbol ")"
      return source) :=
    fun _ => passing (orElse_yields (keyword_passes _) (keyword_passes _)) fun _ =>
      taking (sequence_reads hg _) fun _ =>
      passing (symbol_passes _) fun _ =>
      ending rfl
  refine fun _ => passing (symbol_passes _) fun _ =>
    choosing (taking ?declared fun _ => taking hclosing fun _ => ending rfl)
      (taking ?assigned fun _ => taking hclosing fun _ => ending rfl)
  case declared =>
    exact fun _ =>
      passing word_passes fun _ =>
      passing (guard_passes _) fun _ =>
      taking (binding_reads hg) fun _ =>
      taking (optional_node (initializer_reads hg _)) fun _ =>
      ending rfl
  case assigned =>
    exact fun _ => taking (orElse_yields (hg _) (condition_reads hg)) fun _ => ending rfl

theorem loopSteps_reads (hg : g.IsSound text) : ReadsNodes text g.loopSteps := by
  refine fun _ =>
    passing (symbol_passes _) fun _ =>
    taking (orElse_yields ?declared (orElse_yields ?value ?nothing)) fun _ =>
    taking (optional_node (sequence_reads hg _)) fun _ =>
    passing (symbol_passes _) fun _ =>
    taking (optional_node (sequence_reads hg _)) fun _ =>
    passing (symbol_passes _) fun _ =>
    ending rfl
  case declared => exact fun _ => taking (plainDeclaration_reads hg) fun _ => ending rfl
  case value =>
    exact fun _ =>
      taking (sequence_reads hg _) fun _ => passing (symbol_passes _) fun _ => ending rfl
  case nothing => exact fun _ => passing (symbol_passes _) fun _ => ending rfl

theorem forLoop_reads (hg : g.IsSound text) : ReadsNodes text g.forLoop := by
  refine fun _ =>
    passing (keyword_passes _) fun _ =>
    passing (optional_passes (keyword_passes _)) fun _ =>
    taking (orElse_yields (loopOver_reads hg) ?steps) fun _ =>
    taking (hg _) fun _ =>
    ending rfl
  exact fun first => passing (guard_passes _) fun _ => loopSteps_reads hg first

theorem whileLoop_reads (hg : g.IsSound text) : ReadsNodes text g.whileLoop :=
  fun _ =>
    passing (keyword_passes _) fun _ =>
    taking (condition_reads hg) fun _ =>
    taking (hg _) fun _ =>
    ending rfl

theorem doLoop_reads (hg : g.IsSound text) : ReadsNodes text g.doLoop :=
  fun _ =>
    passing (keyword_passes _) fun _ =>
    taking (hg _) fun _ =>
    passing (keyword_passes _) fun _ =>
    taking (condition_reads hg) fun _ =>
    passing (optional_passes (ends_passes _)) fun _ =>
    ending rfl

theorem caseBody_reads (hg : g.IsSound text) : ReadsNodes text g.caseBody :=
  many_nodes fun first =>
    passing nextWord_passes fun _ => passing (guard_passes _) fun _ => hg _ first

theorem switch_reads (hg : g.IsSound text) : ReadsNodes text g.switch := by
  refine fun _ =>
    passing (keyword_passes _) fun _ =>
    taking (condition_reads hg) fun _ =>
    passing (symbol_passes _) fun _ =>
    taking (many_lists (orElse_yields ?named ?default)) fun _ =>
    passing (symbol_passes _) fun _ =>
    ending rfl
  case named =>
    exact fun _ =>
      passing (keyword_passes _) fun _ =>
      taking (sequence_reads hg _) fun _ =>
      passing (symbol_passes _) fun _ =>
      taking (caseBody_reads hg) fun _ =>
      ending rfl
  case default =>
    exact fun first =>
      passing (keyword_passes _) fun _ =>
      passing (symbol_passes _) fun _ =>
      caseBody_reads hg first

theorem attempt_reads (hg : g.IsSound text) : ReadsNodes text g.attempt := by
  refine fun _ =>
    passing (keyword_passes _) fun _ =>
    taking (hg _) fun _ =>
    taking (optional_nodes ?handler) fun _ =>
    taking (optional_node fun first => passing (keyword_passes _) fun _ => hg _ first) fun _ =>
    ending rfl
  refine fun _ =>
    passing (keyword_passes _) fun _ =>
    taking (optional_node ?target) fun _ =>
    taking (hg _) fun _ =>
    ending rfl
  exact fun _ =>
    passing (symbol_passes _) fun _ =>
    taking (binding_reads hg) fun _ =>
    joining (dropping (optional_node (annotation_reads hg))) (pure_yields rfl) fun _ =>
    passing (symbol_passes _) fun _ =>
    ending rfl

theorem withObject_reads (hg : g.IsSound text) : ReadsNodes text g.withObject :=
  fun _ =>
    passing (keyword_passes _) fun _ =>
    taking (condition_reads hg) fun _ =>
    taking (hg _) fun _ =>
    ending rfl

theorem jump_reads (w : String) : ReadsNodes text (g.jump w) :=
  fun _ =>
    passing (keyword_passes _) fun _ =>
    passing (atInserted_passes _ _) fun _ =>
    sometimes (optional_passes word_passes) <|
    passing (ends_passes _) fun _ =>
    ending rfl

theorem returning_reads (hg : g.IsSound text) : ReadsNodes text g.returning :=
  fun _ =>
    passing (keyword_passes _) fun _ =>
    passing (atInserted_passes _ _) fun _ =>
    completes_ite (ending rfl) <|
    taking (optional_node (sequence_reads hg _)) fun _ =>
    passing (ends_passes _) fun _ =>
    ending rfl

theorem throwing_reads (hg : g.IsSound text) : ReadsNodes text g.throwing :=
  fun _ =>
    passing (keyword_passes _) fun _ =>
    taking (sequence_reads hg _) fun _ =>
    passing (ends_passes _) fun _ =>
    ending rfl

theorem stopping_reads : ReadsNodes text g.stopping :=
  fun _ => passing (keyword_passes _) fun _ => passing (ends_passes _) fun _ => ending rfl

theorem controlStatement_reads (hg : g.IsSound text) {w : String} {body : Reading (List Node)}
    (h : g.controlStatement w = some body) : ReadsNodes text body := by
  unfold controlStatement at h
  split at h <;> cases h
  · exact conditional_reads hg
  · exact forLoop_reads hg
  · exact whileLoop_reads hg
  · exact doLoop_reads hg
  · exact switch_reads hg
  · exact attempt_reads hg
  · exact withObject_reads hg
  · exact jump_reads "break"
  · exact jump_reads "continue"
  · exact returning_reads hg
  · exact throwing_reads hg
  · exact stopping_reads

/-!
# Expressions as statements
-/

theorem expressionStatement_reads (hg : g.IsSound text) : ReadsNode text g.expressionStatement :=
  starting fun _ =>
    taking (sequence_reads hg _) fun _ =>
    passing (ends_passes _) fun _ =>
    branching rfl rfl

theorem labelled_reads (hg : g.IsSound text) : ReadsNode text g.labelled :=
  starting fun _ =>
    passing word_passes fun _ =>
    passing (symbol_passes _) fun _ =>
    taking (hg _) fun _ =>
    branching rfl rfl

end Grammar
end Syntax
end JsxUsage
