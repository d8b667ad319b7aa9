import JsxUsage.Proofs.LexemeReadings
import JsxUsage.Syntax.Grammar.Patterns
import JsxUsage.Syntax.Grammar.Types

/-!
# Readings of types, parameters and patterns

Each rule for types, parameters and binding patterns is sound if the goals that it reaches
are.  The proofs go through the steps of the rules.
-/

namespace JsxUsage
namespace Syntax

open Text (Mark Point Reply Reading)

namespace Grammar

open Text.Reading Lexeme

variable {text : List Char} {g : Grammar}

/-!
# Annotations
-/

theorem memberName_passes : Passes text (do let _ ← privateName <|> word) :=
  fun _ => passing (orElse_yields privateName_passes word_passes) fun _ => ending rfl

theorem importedType_reads (hg : g.IsSound text) : ReadsNode text g.importedType :=
  starting fun _ =>
    passing (keyword_passes _) fun _ =>
    passing (many_passes (orElse_yields
      (fun first => passing (symbol_passes _) fun _ => memberName_passes first)
      (fun _ => passing (dropping (arguments_reads hg)) fun _ => ending rfl))) fun _ =>
    passing (guard_passes _) fun _ =>
    branching rfl rfl

theorem annotation_reads (hg : g.IsSound text) : ReadsNode text g.annotation :=
  fun first => passing (symbol_passes _) fun _ =>
    choosing (importedType_reads hg first) (hg _ first)

theorem predicateType_reads (hg : g.IsSound text) : ReadsNode text g.predicateType := by
  apply orElse_yields
  · exact starting fun _ =>
      passing (keyword_passes _) fun _ =>
      passing word_passes fun _ =>
      taking (optional_node fun first => passing (keyword_passes _) fun _ => hg _ first) fun _ =>
      branching rfl rfl
  · exact starting fun _ =>
      passing word_passes fun _ =>
      passing (keyword_passes _) fun _ =>
      taking (hg _) fun _ =>
      branching rfl rfl

theorem resultType_reads (hg : g.IsSound text) : ReadsNode text g.resultType :=
  orElse_yields (predicateType_reads hg) (hg _)

theorem resultAnnotation_reads (hg : g.IsSound text) : ReadsNode text g.resultAnnotation :=
  fun first => passing (symbol_passes _) fun _ =>
    choosing (importedType_reads hg first) (resultType_reads hg first)

theorem typeArguments_reads (hg : g.IsSound text) : ReadsNode text g.typeArguments :=
  starting fun _ =>
    passing (symbol_passes _) fun _ =>
    taking (listed_reads (hg _)) fun _ =>
    passing (chars_passes _) fun _ =>
    branching rfl rfl

theorem typeParameter_reads (hg : g.IsSound text) : ReadsNode text g.typeParameter := by
  refine starting fun _ => taking (marked_yields ?plain (keyword_passes _)) fun _ => branching rfl rfl
  exact fun _ =>
    passing word_passes fun _ =>
    taking (optional_node fun first =>
      passing (orElse_yields (keyword_passes _) (symbol_passes _)) fun _ => hg _ first) fun _ =>
    taking (optional_node fun first => passing (symbol_passes _) fun _ => hg _ first) fun _ =>
    passing (atSymbol_passes _) fun _ =>
    passing upcoming_passes fun _ =>
    passing (guard_passes _) fun _ =>
    ending rfl

theorem typeParameters_reads (hg : g.IsSound text) : ReadsNode text g.typeParameters :=
  starting fun _ =>
    passing (symbol_passes _) fun _ =>
    taking (listed_reads (typeParameter_reads hg)) fun _ =>
    passing (chars_passes _) fun _ =>
    branching rfl rfl

/-!
# Parameters
-/

theorem decorator_reads (hg : g.IsSound text) : ReadsNode text g.decorator := by
  refine starting fun _ => passing (symbol_passes _) fun _ =>
    taking (orElse_yields ?named ?grouped) fun _ => branching rfl rfl
  case named =>
    exact fun _ =>
      passing (sepBy1_passes word_passes (symbol_passes _)) fun _ =>
      sometimes (optional_passes fun first =>
        passing (dropping (typeArguments_reads hg)) fun _ =>
        passing (atSymbol_passes _) fun _ => guard_passes _ first) <|
      taking (optional_node (arguments_reads hg)) fun _ =>
      ending rfl
  case grouped =>
    exact fun _ =>
      passing (guard_passes _) fun _ =>
      passing (symbol_passes _) fun _ =>
      taking (hg _) fun _ =>
      passing (symbol_passes _) fun _ =>
      ending rfl

theorem parameterModifier_passes : Passes text parameterModifier := by
  refine fun first => passing word_passes fun _ => passing (guard_passes _) fun _ =>
    passing upcoming_passes fun cs => ?_
  split
  · exact guard_passes _ first
  · exact failing

theorem parameter_reads (hg : g.IsSound text) : ReadsNode text g.parameter :=
  starting fun _ =>
    joining (many_nodes (decorator_reads hg)) (pure_yields rfl) fun _ =>
    sometimes (many_passes parameterModifier_passes) <|
    passing (optional_passes (symbol_passes _)) fun _ =>
    passing (atWord_passes _) fun _ =>
    joining name_reads (hg _) fun _ =>
    joining_marked (optional_passes (symbol_passes _)) (optional_node (annotation_reads hg))
      (pure_yields rfl) fun _ =>
    taking (optional_node (initializer_reads hg _)) fun _ =>
    branching rfl (by simp)

theorem parameters_reads (hg : g.IsSound text) : ReadsNode text g.parameters :=
  starting fun _ =>
    passing (symbol_passes _) fun _ =>
    taking (optional_nodes (listed_reads (parameter_reads hg))) fun _ =>
    passing (symbol_passes _) fun _ =>
    branching rfl rfl

theorem signature_reads (hg : g.IsSound text) : ReadsNodes text g.signature := by
  intro first
  apply completes_ite
  · exact taking (optional_node (typeParameters_reads hg)) fun _ =>
      taking (parameters_reads hg) fun _ =>
      taking (optional_node (resultAnnotation_reads hg)) fun _ =>
      ending (by simp)
  · exact taking (parameters_reads hg) fun _ => ending rfl

/-!
# Members of object types
-/

theorem modifier_passes (modifiers : List String) : Passes text (modifier modifiers) := by
  refine orElse_yields (fun _ => passing (symbol_passes _) fun _ => ending rfl) ?_
  refine fun _ => passing word_passes fun _ => passing (guard_passes _) fun _ =>
    passing upcoming_passes fun cs => ?_
  split
  · exact completes_ite (ending rfl) failing
  · exact failing

theorem sign_passes : Passes text (optional (symbol "-" <|> symbol "+")) :=
  optional_passes (orElse_yields (symbol_passes _) (symbol_passes _))

theorem indexSignature_reads (hg : g.IsSound text) : ReadsNode text g.indexSignature := by
  refine starting fun _ =>
    passing (optional_passes fun first => passing sign_passes fun _ => keyword_passes _ first)
      fun _ =>
    passing (symbol_passes _) fun _ =>
    passing word_passes fun _ =>
    taking (orElse_yields ?typed ?mapped) fun _ =>
    passing (symbol_passes _) fun _ =>
    passing sign_passes fun _ =>
    passing (optional_passes (symbol_passes _)) fun _ =>
    taking (annotation_reads hg) fun _ =>
    branching rfl rfl
  case typed =>
    exact fun _ => passing (symbol_passes _) fun _ => taking (hg _) fun _ => ending rfl
  case mapped =>
    exact fun _ =>
      passing (keyword_passes _) fun _ =>
      taking (hg _) fun _ =>
      taking (optional_node fun first => passing (keyword_passes _) fun _ => hg _ first) fun _ =>
      ending rfl

theorem typeMember_reads (hg : g.IsSound text) : ReadsNode text g.typeMember := by
  refine starting fun _ =>
    taking (orElse_yields (signature_reads hg) (orElse_yields ?construct
      (orElse_yields ?index ?property))) fun _ =>
    branching rfl rfl
  case construct =>
    exact fun _ =>
      passing (optional_passes (keyword_passes _)) fun _ =>
      passing (keyword_passes _) fun _ =>
      taking (optional_node (typeParameters_reads hg)) fun _ =>
      taking (parameters_reads hg) fun _ =>
      taking (optional_node (annotation_reads hg)) fun _ =>
      ending (by simp)
  case index => exact fun _ => taking (indexSignature_reads hg) fun _ => ending rfl
  case property =>
    exact fun _ =>
      passing (many_passes (modifier_passes _)) fun _ =>
      taking (propertyName_reads hg) fun _ =>
      passing (optional_passes (symbol_passes _)) fun _ =>
      taking (orElse_yields (signature_reads hg) (map_yields (optional_node (annotation_reads hg))))
        fun _ =>
      ending rfl

theorem objectType_reads (hg : g.IsSound text) : ReadsNode text g.objectType := by
  refine starting fun _ =>
    passing (symbol_passes _) fun _ =>
    passing (optional_passes (orElse_yields (symbol_passes _) (symbol_passes _))) fun _ =>
    taking (many_nodes ?member) fun _ =>
    passing (symbol_passes _) fun _ =>
    branching rfl rfl
  exact fun _ =>
    taking (typeMember_reads hg) fun _ =>
    passing (orElse_yields (symbol_passes _) (ends_passes _)) fun _ =>
    ending rfl

/-!
# Type expressions
-/

theorem tupleMember_reads (hg : g.IsSound text) : ReadsNode text g.tupleMember := by
  apply orElse_yields
  · exact fun first =>
      passing (optional_passes (symbol_passes _)) fun _ =>
      passing word_passes fun _ =>
      passing (optional_passes (symbol_passes _)) fun _ =>
      annotation_reads hg first
  · exact fun _ =>
      passing (optional_passes (symbol_passes _)) fun _ =>
      taking (hg _) fun _ =>
      passing (optional_passes (symbol_passes _)) fun _ =>
      ending rfl

theorem functionType_reads (hg : g.IsSound text) : ReadsNode text g.functionType :=
  starting fun _ =>
    taking (optional_node (typeParameters_reads hg)) fun _ =>
    taking (parameters_reads hg) fun _ =>
    passing (symbol_passes _) fun _ =>
    taking (resultType_reads hg) fun _ =>
    branching rfl (by simp)

theorem queryType_reads (hg : g.IsSound text) : ReadsNode text g.queryType := by
  refine starting fun _ =>
    passing (keyword_passes _) fun _ =>
    passing (orElse_yields ?viaImport fun _ => passing word_passes fun _ => ending rfl) fun _ =>
    passing (many_passes fun first => passing (symbol_passes _) fun _ => memberName_passes first)
      fun _ =>
    taking (optional_node (typeArguments_reads hg)) fun _ =>
    branching rfl rfl
  exact fun _ =>
    passing (keyword_passes _) fun _ =>
    passing (dropping (arguments_reads hg)) fun _ =>
    ending rfl

theorem actingType_reads (hg : g.IsSound text) : ReadsNode text g.actingType := by
  refine starting fun _ =>
    taking (orElse_yields ?constructor (orElse_yields ?inferred (orElse_yields ?acting
      (orElse_yields ?signed ?maybe)))) fun _ =>
    branching rfl rfl
  case constructor =>
    exact fun first =>
      passing (optional_passes (keyword_passes _)) fun _ =>
      passing (keyword_passes _) fun _ =>
      functionType_reads hg first
  case inferred =>
    exact fun _ =>
      passing (keyword_passes _) fun _ =>
      taking name_reads fun _ =>
      passing (optional_passes fun first =>
        passing (keyword_passes _) fun _ => dropping (hg _) first) fun _ =>
      ending rfl
  case acting =>
    exact fun first =>
      passing word_passes fun _ =>
      passing (guard_passes _) fun _ =>
      hg _ first
  case signed =>
    exact fun first =>
      passing (orElse_yields (symbol_passes _) (symbol_passes _)) fun _ => numeral_reads first
  case maybe => exact fun first => passing (symbol_passes _) fun _ => hg _ first

theorem primaryType_reads (hg : g.IsSound text) : ReadsNode text g.primaryType := by
  refine starting fun start => passing upcoming_passes fun cs => ?_
  split
  · refine choosing (functionType_reads hg start) ?_
    exact passing (symbol_passes _) fun _ =>
      taking (hg _) fun _ =>
      passing (symbol_passes _) fun _ =>
      branching rfl rfl
  · exact functionType_reads hg start
  · exact objectType_reads hg start
  · exact passing (symbol_passes _) fun _ =>
      taking (optional_nodes (listed_reads (tupleMember_reads hg))) fun _ =>
      passing (symbol_passes _) fun _ =>
      branching rfl rfl
  · exact templateOf_reads (hg _) start
  · exact quotation_reads start
  · exact quotation_reads start
  · exact passing (symbol_passes _) fun _ => branching rfl rfl
  · refine choosing (actingType_reads hg start) (choosing (queryType_reads hg start) ?_)
    exact choosing (passing word_passes fun _ => branching rfl rfl) (numeral_reads start)

theorem typeSuffix_reads (hg : g.IsSound text) : ReadsNodes text g.typeSuffix := by
  refine orElse_yields ?member (orElse_yields ?arguments ?index)
  case member =>
    exact fun _ => passing (symbol_passes _) fun _ => passing word_passes fun _ => ending rfl
  case arguments => exact fun _ => taking (typeArguments_reads hg) fun _ => ending rfl
  case index =>
    exact fun _ =>
      passing newlineAhead_passes fun _ =>
      passing (guard_passes _) fun _ =>
      passing (symbol_passes _) fun _ =>
      taking (optional_node (hg _)) fun _ =>
      passing (symbol_passes _) fun _ =>
      ending rfl

theorem suffixedType_reads (hg : g.IsSound text) : ReadsNode text g.suffixedType :=
  starting fun _ =>
    taking (primaryType_reads hg) fun _ =>
    taking (many_lists (typeSuffix_reads hg)) fun _ =>
    branching rfl rfl

theorem typeRule_reads (hg : g.IsSound text) : ReadsNode text g.typeRule := by
  have hbar : Passes text (symbol "|" <|> symbol "&") :=
    orElse_yields (symbol_passes _) (symbol_passes _)
  refine starting fun _ =>
    passing (optional_passes hbar) fun _ =>
    taking (sepBy1_nodes (suffixedType_reads hg) hbar) fun _ =>
    taking (optional_nodes ?choice) fun _ =>
    branching rfl rfl
  exact fun _ =>
    passing (keyword_passes _) fun _ =>
    taking (hg _) fun _ =>
    passing (symbol_passes _) fun _ =>
    taking (hg _) fun _ =>
    passing (symbol_passes _) fun _ =>
    taking (hg _) fun _ =>
    ending rfl

/-!
# Patterns
-/

theorem defaulted_reads (hg : g.IsSound text) : ReadsNodes text g.defaulted :=
  fun _ =>
    taking (hg _) fun _ =>
    taking (optional_node (initializer_reads hg _)) fun _ =>
    ending rfl

theorem patternProperty_reads (hg : g.IsSound text) : ReadsNode text g.patternProperty := by
  refine starting fun _ =>
    taking (orElse_yields ?rest (orElse_yields ?pair ?short)) fun _ => branching rfl rfl
  case rest =>
    exact fun _ => passing (symbol_passes _) fun _ => taking (hg _) fun _ => ending rfl
  case pair =>
    exact fun _ =>
      taking (propertyName_reads hg) fun _ =>
      passing (symbol_passes _) fun _ =>
      taking (defaulted_reads hg) fun _ =>
      ending rfl
  case short =>
    exact fun _ =>
      taking name_reads fun _ =>
      taking (optional_node (initializer_reads hg _)) fun _ =>
      ending rfl

theorem objectPattern_reads (hg : g.IsSound text) : ReadsNode text g.objectPattern :=
  starting fun _ =>
    passing (symbol_passes _) fun _ =>
    taking (holes_reads (patternProperty_reads hg)) fun _ =>
    passing (symbol_passes _) fun _ =>
    branching rfl rfl

theorem patternElement_reads (hg : g.IsSound text) : ReadsNode text g.patternElement :=
  starting fun _ =>
    passing (optional_passes (symbol_passes _)) fun _ =>
    taking (defaulted_reads hg) fun _ =>
    branching rfl rfl

theorem arrayPattern_reads (hg : g.IsSound text) : ReadsNode text g.arrayPattern :=
  starting fun _ =>
    passing (symbol_passes _) fun _ =>
    taking (holes_reads (patternElement_reads hg)) fun _ =>
    passing (symbol_passes _) fun _ =>
    branching rfl rfl

theorem destructuring_reads (hg : g.IsSound text) : ReadsNode text g.destructuring :=
  orElse_yields (objectPattern_reads hg) (arrayPattern_reads hg)

theorem memberStep_reads (hg : g.IsSound text) : ReadsNodes text g.memberStep := by
  refine orElse_yields ?member (orElse_yields ?index ?present)
  case member =>
    exact fun _ =>
      passing (symbol_passes _) fun _ =>
      passing (orElse_yields privateName_passes word_passes) fun _ =>
      ending rfl
  case index =>
    exact fun _ =>
      passing (symbol_passes _) fun _ =>
      taking (sequence_reads hg _) fun _ =>
      passing (symbol_passes _) fun _ =>
      ending rfl
  case present =>
    exact fun _ =>
      passing (guard_passes _) fun _ => passing (symbol_passes _) fun _ => ending rfl

theorem nameOrMember_reads (hg : g.IsSound text) : ReadsNode text g.nameOrMember := by
  refine starting fun _ =>
    taking name_reads fun head =>
    taking (many_lists (memberStep_reads hg)) fun steps => ?_
  split
  · exact completes_ite failing (ending rfl)
  · exact branching rfl rfl

theorem patternRule_reads (hg : g.IsSound text) : ReadsNode text g.patternRule :=
  orElse_yields (destructuring_reads hg) (nameOrMember_reads hg)

theorem binding_reads (hg : g.IsSound text) : ReadsNode text g.binding :=
  orElse_yields (destructuring_reads hg) name_reads

end Grammar
end Syntax
end JsxUsage
