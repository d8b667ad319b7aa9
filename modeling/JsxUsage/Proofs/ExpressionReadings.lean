import JsxUsage.Proofs.MarkupReadings
import JsxUsage.Syntax.Grammar.Expressions

/-!
# Readings of functions, classes and expressions

Each rule for functions, classes and expressions is sound if the goals that it reaches are.
An operand grows while its members, calls and further marks are read: the node that was
read last becomes the first child of a larger one that starts on the same line.
-/

namespace JsxUsage
namespace Syntax

open Text (Mark Point Reply Reading)

namespace Grammar

open Text.Reading Lexeme
open Node

variable {text : List Char} {g : Grammar}

/-!
# Functions
-/

theorem bind_assoc {α β γ : Type} (r : Reading α) (f : α -> Reading β)
    (h : β -> Reading γ) : (r >>= f) >>= h = r >>= fun a => f a >>= h := by
  funext p
  cases hrun : r p with
  | stuck m => rw [bind_of_stuck hrun, bind_of_stuck (bind_of_stuck hrun)]
  | done a next =>
      have hstep : (r >>= f) p = f a next := bind_of_done hrun
      rw [bind_of_done hrun]
      cases hmore : f a next with
      | stuck m => rw [bind_of_stuck (hstep.trans hmore), bind_of_stuck hmore]
      | done b last => rw [bind_of_done (hstep.trans hmore), bind_of_done hmore]

/-- The head of a function gives the line on which the function starts. -/
theorem heading {α : Type} {f : Nat × Bool -> Reading α} {nodes : α -> List Node}
    (hf : forall start generator, Completes text start [] (f (start, generator)) nodes) :
    Yields text (functionHead >>= f) nodes := by
  unfold functionHead
  simp only [bind_assoc]
  exact starting fun start =>
    passing (optional_passes (keyword_passes _)) fun _ =>
    passing (keyword_passes _) fun _ =>
    passing (optional_passes (symbol_passes _)) fun star =>
    hf start star.isSome

theorem functionDeclaration_reads (hg : g.IsSound text) : ReadsNode text g.functionDeclaration := by
  refine heading fun _ generator =>
    taking (withRole_reads .name name_reads) fun _ =>
    taking (signature_reads hg) fun _ =>
    passing (atSymbol_passes _) fun _ =>
    completes_ite ?signature ?body
  case signature => exact passing (ends_passes _) fun _ => branching rfl rfl
  case body =>
    refine taking (hg _) fun _ => branching ?_ (by simp)
    cases generator <;> rfl

theorem functionExpression_reads (hg : g.IsSound text) : ReadsNode text g.functionExpression :=
  heading fun _ _ =>
    taking (optional_withRole .name name_reads) fun _ =>
    taking (signature_reads hg) fun _ =>
    taking (hg _) fun _ =>
    branching rfl rfl

theorem method_reads (hg : g.IsSound text) : ReadsNode text g.method :=
  starting fun _ =>
    passing (many_passes (modifier_passes _)) fun _ =>
    taking (propertyName_reads hg) fun _ =>
    sometimes (optional_passes (symbol_passes _)) <|
    taking (signature_reads hg) fun _ =>
    taking (hg _) fun _ =>
    branching rfl (by simp)

/-!
# Classes
-/

theorem memberEnd_passes (operand : Bool) : Passes text (g.memberEnd operand) :=
  yields_ite (orElse_yields (symbol_passes _) (ends_passes _)) (ends_passes _)

theorem classProperty_reads (hg : g.IsSound text) : ReadsNode text g.classProperty := by
  refine starting fun _ =>
    taking (many_nodes (decorator_reads hg)) fun _ =>
    passing (many_passes (modifier_passes _)) fun _ =>
    taking (propertyName_reads hg) fun _ =>
    sometimes (optional_passes (orElse_yields (symbol_passes _) (symbol_passes _))) <|
    passing (atSymbol_passes _) fun _ =>
    passing (atSymbol_passes _) fun _ =>
    completes_ite ?callable ?field
  case callable =>
    refine taking (signature_reads hg) fun _ =>
      passing (atSymbol_passes _) fun _ =>
      completes_ite ?signature ?body
    case signature => exact passing (memberEnd_passes _) fun _ => branching rfl (by simp)
    case body =>
      exact taking (hg _) fun _ =>
        passing (optional_passes (symbol_passes _)) fun _ =>
        branching rfl (by simp)
  case field =>
    exact passing (guard_passes _) fun _ =>
      joining (optional_node (annotation_reads hg)) (pure_yields rfl) fun _ =>
      taking (optional_node (initializer_reads hg _)) fun _ =>
      passing (memberEnd_passes _) fun _ =>
      branching rfl (by simp)

theorem classMember_reads (hg : g.IsSound text) : ReadsNode text g.classMember := by
  refine orElse_yields ?empty (orElse_yields ?block (orElse_yields ?index (classProperty_reads hg)))
  case empty => exact starting fun _ => passing (symbol_passes _) fun _ => branching rfl rfl
  case block => exact fun first => passing (keyword_passes _) fun _ => hg _ first
  case index =>
    exact fun _ =>
      passing (guard_passes _) fun _ =>
      taking (indexSignature_reads hg) fun _ =>
      passing (memberEnd_passes _) fun _ =>
      ending rfl

theorem classBody_reads (hg : g.IsSound text) : ReadsNode text g.classBody :=
  starting fun _ =>
    passing (symbol_passes _) fun _ =>
    taking (many_nodes (classMember_reads hg)) fun _ =>
    passing (symbol_passes _) fun _ =>
    branching rfl rfl

theorem heritage_reads (hg : g.IsSound text) : ReadsNodes text g.heritage := by
  refine fun _ =>
    taking (optional_nodes ?extended) fun _ =>
    joining (optional_nodes ?implemented) (pure_yields rfl) fun _ =>
    ending rfl
  case extended =>
    refine fun first => passing (keyword_passes _) fun _ =>
      completes_ite (taking (sepBy1_yields ?value (symbol_passes _)) fun _ => ending (by simp))
        (?value first)
    exact fun _ =>
      taking (hg _) fun _ =>
      joining (optional_node (typeArguments_reads hg)) (pure_yields rfl) fun _ =>
      ending rfl
  case implemented =>
    exact fun first =>
      passing (keyword_passes _) fun _ => sepBy1_nodes (hg _) (symbol_passes _) first

theorem className_reads : ReadsNode text g.className :=
  fun _ =>
    taking (withRole_reads .name name_reads) fun _ =>
    passing (guard_passes _) fun _ =>
    ending rfl

theorem classTail_completes (hg : g.IsSound text) {kind : Kind} (hplain : kind.isPlain = true)
    (start : Nat) (decorators : List Node) (needsName : Bool) :
    Completes text start decorators (g.classTail kind start decorators needsName) fun n => [n] :=
  passing (keyword_passes _) fun _ =>
    joining (map_yields className_reads) (optional_node className_reads) fun _ =>
    joining (optional_node (typeParameters_reads hg)) (pure_yields rfl) fun _ =>
    taking (heritage_reads hg) fun _ =>
    taking (classBody_reads hg) fun _ =>
    branching hplain rfl

theorem classDeclaration_completes (hg : g.IsSound text) (start : Nat) (decorators : List Node) :
    Completes text start decorators (g.classDeclaration start decorators) fun n => [n] :=
  sometimes (optional_passes (keyword_passes _)) (classTail_completes hg rfl start decorators true)

theorem classExpression_reads (hg : g.IsSound text) : ReadsNode text g.classExpression :=
  starting fun start =>
    taking (many_nodes (decorator_reads hg)) fun decorators =>
    classTail_completes hg rfl start decorators false

/-!
# Arrow functions
-/

theorem arrowHead_reads (hg : g.IsSound text) (mode : Mode) : ReadsNodes text (g.arrowHead mode) :=
  fun _ =>
    joining (optional_node (typeParameters_reads hg)) (pure_yields rfl) fun _ =>
    taking (parameters_reads hg) fun _ =>
    joining (optional_node (resultAnnotation_reads hg)) (pure_yields rfl) fun _ =>
    passing (symbol_passes _) fun _ =>
    ending (by simp)

theorem arrowBody_reads (hg : g.IsSound text) (mode : Mode) : ReadsNode text (g.arrowBody mode) := by
  refine fun first => passing (atSymbol_passes _) fun _ => completes_ite ?braces (hg _ first)
  exact choosing (hg _ first) (expecting (hg _ first))

theorem arrow_reads (hg : g.IsSound text) (mode : Mode) : ReadsNode text (g.arrow mode) := by
  refine starting fun _ =>
    passing (optional_passes ?async) fun _ =>
    taking (arrowHead_reads hg mode) fun _ =>
    taking (arrowBody_reads hg mode) fun _ =>
    branching rfl rfl
  exact fun first =>
    passing (keyword_passes _) fun _ =>
    passing (atSymbol_passes _) fun _ =>
    passing (atSymbol_passes _) fun _ =>
    guard_passes _ first

theorem shortArrow_reads (hg : g.IsSound text) (mode : Mode) :
    ReadsNode text (g.shortArrow mode) := by
  refine starting fun _ =>
    passing (optional_passes ?async) fun _ =>
    taking name_reads fun _ =>
    passing (guard_passes _) fun _ =>
    passing (symbol_passes _) fun _ =>
    taking (arrowBody_reads hg mode) fun _ =>
    branching rfl rfl
  exact fun first =>
    passing (keyword_passes _) fun _ =>
    passing (atSymbol_passes _) fun _ =>
    guard_passes _ first

/-!
# Operands
-/

theorem parenthesized_reads (hg : g.IsSound text) : ReadsNode text g.parenthesized :=
  starting fun _ =>
    passing (symbol_passes _) fun _ =>
    taking (sequence_reads hg _) fun _ =>
    joining (optional_node (annotation_reads hg)) (pure_yields rfl) fun _ =>
    passing (symbol_passes _) fun _ =>
    branching rfl rfl

theorem group_reads (hg : g.IsSound text) (mode : Mode) : ReadsNode text (g.group mode) := by
  intro first p hp hline
  have harrow := arrow_reads hg mode first p hp hline
  have hvalue := parenthesized_reads hg first p hp hline
  unfold group
  cases hrun : g.parenthesized p with
  | stuck m =>
      rw [hrun] at hvalue
      exact arrow_reads hg mode first (p.note m) (Point.on_note hp hvalue) hline
  | done node next =>
      rw [hrun] at hvalue
      dsimp only
      split
      · exact harrow
      · split
        · cases hother : g.arrow mode p with
          | done function after =>
              rw [hother] at harrow
              exact harrow
          | stuck m =>
              rw [hother] at harrow
              exact ⟨Point.on_note hvalue.left harrow, hvalue.right⟩
        · exact hvalue

theorem objectEntry_reads (hg : g.IsSound text) : ReadsNode text g.objectEntry := by
  refine starting fun start =>
    choosing ?spread (choosing ?pair (choosing (method_reads hg start) ?short))
  case spread => exact passing (symbol_passes _) fun _ => hg _ start
  case pair =>
    exact taking (propertyName_reads hg) fun _ =>
      passing (symbol_passes _) fun _ =>
      taking (hg _) fun _ =>
      branching rfl rfl
  case short =>
    exact taking name_reads fun _ =>
      passing (atSymbol_passes _) fun _ =>
      passing (atSymbol_passes _) fun _ =>
      passing (guard_passes _) fun _ =>
      ending rfl

theorem object_reads (hg : g.IsSound text) : ReadsNode text g.object :=
  starting fun _ =>
    passing (symbol_passes _) fun _ =>
    taking (holes_reads (objectEntry_reads hg)) fun _ =>
    passing (symbol_passes _) fun _ =>
    branching rfl rfl

theorem array_reads (hg : g.IsSound text) : ReadsNode text g.array :=
  starting fun _ =>
    passing (symbol_passes _) fun _ =>
    taking (holes_reads (spread_reads hg)) fun _ =>
    passing (symbol_passes _) fun _ =>
    branching rfl rfl

theorem valueOrPattern_reads {value target : Reading Node} (hvalue : ReadsNode text value)
    (htarget : ReadsNode text target) : ReadsNode text (valueOrPattern value target) := by
  apply orElse_yields
  · exact fun _ =>
      taking hvalue fun _ =>
      passing (atSymbol_passes _) fun _ =>
      passing (guard_passes _) fun _ =>
      ending rfl
  · exact fun _ =>
      taking htarget fun _ =>
      passing (atSymbol_passes _) fun _ =>
      passing (guard_passes _) fun _ =>
      ending rfl

theorem construction_reads (hg : g.IsSound text) {callee : Reading Node}
    (hcallee : ReadsNode text callee) : ReadsNode text (g.construction callee) := by
  refine starting fun _ => passing (keyword_passes _) fun _ => choosing ?target ?made
  case target =>
    exact passing (symbol_passes _) fun _ =>
      passing (keyword_passes _) fun _ =>
      branching rfl rfl
  case made =>
    refine taking hcallee fun _ =>
      joining (optional_node ?types) (pure_yields rfl) fun _ =>
      taking (optional_node (arguments_reads hg)) fun _ =>
      branching rfl (by simp)
    exact fun _ =>
      taking (typeArguments_reads hg) fun _ =>
      passing (atSymbol_passes _) fun _ =>
      passing (guard_passes _) fun _ =>
      ending rfl

theorem importOperand_reads : ReadsNode text importOperand :=
  starting fun _ =>
    passing (keyword_passes _) fun _ =>
    passing (atSymbol_passes _) fun _ =>
    passing (atSymbol_passes _) fun _ =>
    passing (guard_passes _) fun _ =>
    leaving rfl

theorem wordOperand_reads (hg : g.IsSound text) (mode : Mode) {construct : Reading Node}
    (hconstruct : ReadsNode text construct) : ReadsNode text (g.wordOperand mode construct) := by
  refine starting fun start => passing nextWord_passes fun w => ?_
  split
  · exact failing
  · exact functionExpression_reads hg start
  · exact classExpression_reads hg start
  · exact hconstruct start
  · exact importOperand_reads start
  · exact choosing
      (expecting (functionExpression_reads hg start))
      (choosing (shortArrow_reads hg mode start)
        (choosing (arrow_reads hg mode start) (name_reads start)))
  · refine completes_ite (passing word_passes fun _ => leaving rfl) (completes_ite failing ?_)
    exact choosing (shortArrow_reads hg mode start) (name_reads start)

theorem privateOperand_reads : ReadsNode text privateOperand :=
  starting fun _ =>
    passing privateName_passes fun _ =>
    passing (atWord_passes _) fun _ =>
    passing (guard_passes _) fun _ =>
    leaving rfl

theorem primary_reads (hg : g.IsSound text) (mode : Mode) {construct : Reading Node}
    (hconstruct : ReadsNode text construct) : ReadsNode text (g.primary mode construct) := by
  refine starting fun start => passing upcoming_passes fun cs => ?_
  split
  · exact group_reads hg mode start
  · exact valueOrPattern_reads (array_reads hg) (arrayPattern_reads hg) start
  · exact valueOrPattern_reads (object_reads hg) (objectPattern_reads hg) start
  · exact quotation_reads start
  · exact quotation_reads start
  · exact template_reads hg start
  · exact passing slashed_passes fun _ => leaving rfl
  · exact completes_ite (choosing (arrow_reads hg mode start) (hg _ start)) (hg _ start)
  · exact classExpression_reads hg start
  · exact privateOperand_reads start
  · exact completes_ite (numeral_reads start) (wordOperand_reads hg mode hconstruct start)
  · exact failing

/-!
# What follows an operand
-/

theorem suffix_completes (hg : g.IsSound text) (mode : Mode) (calls : Bool) (node : Node)
    (first : Nat) : Completes text first [node] (g.suffix mode calls node) fun n => [n] := by
  have hmember : Completes text first [node] (do
      let _ ← privateName <|> word
      return .branch .memberExpression node.line [node]) fun n => [n] :=
    passing (orElse_yields privateName_passes word_passes) fun _ => enclosing rfl rfl
  have hindex : Completes text first [node] (do
      symbol "["
      let key ← g.sequence ⟨false, true⟩
      symbol "]"
      return .branch .memberExpression node.line [node, key]) fun n => [n] :=
    passing (symbol_passes _) fun _ =>
      taking (sequence_reads hg _) fun _ =>
      passing (symbol_passes _) fun _ =>
      enclosing rfl rfl
  have hcall : Completes text first [node] (do
      return .branch .callExpression node.line [node, ← g.arguments]) fun n => [n] :=
    taking (arguments_reads hg) fun _ => enclosing rfl rfl
  refine passing (atInserted_passes _ _) fun _ => completes_ite halting ?_
  refine passing nextSymbol_passes fun s => ?_
  split
  · exact passing (symbol_passes _) fun _ => hmember
  · exact hindex
  · exact taking (template_reads hg) fun _ => enclosing rfl rfl
  · exact passing (guard_passes _) fun _ => passing (symbol_passes _) fun _ => enclosing rfl rfl
  · exact passing (guard_passes _) fun _ => hcall
  · refine passing (guard_passes _) fun _ => passing (symbol_passes _) fun _ =>
      choosing hindex (choosing hcall (choosing hmember ?_))
    exact passing (guard_passes _) fun _ =>
      taking (typeArguments_reads hg) fun _ =>
      taking (arguments_reads hg) fun _ =>
      enclosing rfl rfl
  · exact passing (guard_passes _) fun _ => passing (symbol_passes _) fun _ => enclosing rfl rfl
  · exact passing (guard_passes _) fun _ => passing (symbol_passes _) fun _ => enclosing rfl rfl
  · exact passing (guard_passes _) fun _ =>
      taking (typeArguments_reads hg) fun _ =>
      passing upcoming_passes fun _ =>
      passing (guard_passes _) fun _ =>
      enclosing rfl rfl
  · exact failing

theorem suffixes_completes (hg : g.IsSound text) (mode : Mode) (calls : Bool) (budget : Nat)
    (node : Node) (first : Nat) :
    Completes text first [node] (g.suffixes mode calls budget node) fun n => [n] := by
  induction budget generalizing node with
  | zero => exact ending rfl
  | succ budget ih =>
      intro p hp hline
      have hreply := suffix_completes hg mode calls node first p hp hline
      unfold suffixes
      cases hrun : g.suffix mode calls node p with
      | done larger next =>
          rw [hrun] at hreply
          exact ih larger next hreply.left hreply.right
      | stuck m =>
          rw [hrun] at hreply
          exact ⟨Point.on_note hp hreply, hline⟩

theorem constructions_reads (hg : g.IsSound text) (mode : Mode) (budget : Nat) :
    ReadsNode text (g.constructions mode budget) := by
  induction budget with
  | zero => exact fail_yields
  | succ budget ih =>
      exact construction_reads hg fun first =>
        passing point_passes fun _ =>
        taking (primary_reads hg mode ih) fun head =>
        suffixes_completes hg _ false _ head first

theorem operatorBefore_passes : Passes text g.operatorBefore := by
  refine fun first => passing (skipWith_passes _) fun _ =>
    passing nextSymbol_passes fun _ =>
    completes_ite (symbol_passes _ first) ?_
  exact passing nextWord_passes fun _ => completes_ite (keyword_passes _ first) failing

theorem yielding_reads (hg : g.IsSound text) (mode : Mode) : ReadsNode text (g.yielding mode) := by
  refine starting fun _ => passing (keyword_passes _) fun _ =>
    passing (atInserted_passes _ _) fun _ => completes_ite (branching rfl rfl) ?_
  refine taking (orElse_yields ?all (optional_node (hg _))) fun _ => branching rfl rfl
  exact fun first => passing (symbol_passes _) fun _ => map_yields (hg _) first

theorem operand_reads (hg : g.IsSound text) (mode : Mode) : ReadsNode text (g.operand mode) := by
  refine fun first => passing (skipWith_passes _) fun _ => starting (fun start => ?_) first
  refine passing (many_passes operatorBefore_passes) fun operators =>
    passing (skipWith_passes _) fun _ =>
    passing point_passes fun _ =>
    taking (orElse_yields (yielding_reads hg mode) ?value) fun head => ?_
  case value =>
    exact fun first =>
      taking (primary_reads hg mode (constructions_reads hg mode _)) fun head =>
      suffixes_completes hg mode true _ head first
  · cases operators with
    | nil => exact ending rfl
    | cons operator rest => exact branching rfl rfl

/-!
# Chains of operands
-/

theorem link_yields (hg : g.IsSound text) (mode : Mode) (last : Node) :
    Yields text (g.link mode last) Prod.fst := by
  have hnext : Yields text (do
      let next ← g.operand mode
      return ([next], some next)) Prod.fst :=
    fun _ => taking (operand_reads hg mode) fun _ => ending rfl
  refine fun first => passing (atInserted_passes _ _) fun _ => completes_ite halting ?_
  refine passing nextSymbol_passes fun s =>
    completes_ite (passing (symbol_passes _) fun _ => hnext first)
      (completes_ite ?assigned (completes_ite ?choice ?word))
  case assigned =>
    exact passing (guard_passes _) fun _ =>
      passing (symbol_passes _) fun _ =>
      taking (hg _) fun _ =>
      ending rfl
  case choice =>
    have hmiddle : forall typedArrow : Bool, ReadsNode text (do
        let node ← g.expression ⟨false, typedArrow⟩
        symbol ":"
        return node) :=
      fun _ _ => taking (hg _) fun _ => passing (symbol_passes _) fun _ => ending rfl
    refine passing (symbol_passes _) fun _ =>
      taking (orElse_yields (hmiddle true) ?untyped) fun _ =>
      taking (hg _) fun _ =>
      ending rfl
    exact fun first => passing (guard_passes _) fun _ => hmiddle false first
  case word =>
    refine passing nextWord_passes fun _ =>
      completes_ite (passing (keyword_passes _) fun _ => hnext first) (completes_ite ?_ failing)
    exact passing (keyword_passes _) fun _ => taking (hg _) fun _ => ending rfl

theorem links_reads (hg : g.IsSound text) (mode : Mode) (budget : Nat) (last : Node) :
    ReadsNodes text (g.links mode budget last) := by
  induction budget generalizing last with
  | zero => exact pure_yields rfl
  | succ budget ih =>
      intro first p hp hline
      have hreply := link_yields hg mode last first p hp hline
      unfold links
      cases hrun : g.link mode last p with
      | stuck m =>
          rw [hrun] at hreply
          exact ⟨Point.on_note hp hreply, hline⟩
      | done found next =>
          rw [hrun] at hreply
          rcases found with ⟨parts, after⟩
          cases after with
          | none => exact hreply
          | some after =>
              have hrest := completes_append (ih after) next hreply.left hreply.right
              dsimp only
              cases hlast : g.links mode budget after next with
              | done others final =>
                  rw [hlast] at hrest
                  exact hrest
              | stuck m =>
                  rw [hlast] at hrest
                  exact hrest

theorem expressionRule_reads (hg : g.IsSound text) (mode : Mode) :
    ReadsNode text (g.expressionRule mode) := by
  refine starting fun _ =>
    taking (operand_reads hg mode) fun first =>
    passing point_passes fun _ =>
    taking (links_reads hg mode _ first) fun others => ?_
  split
  · exact ending rfl
  · exact branching rfl rfl

end Grammar
end Syntax
end JsxUsage
