import JsxUsage.Syntax.Grammar.Expressions
import JsxUsage.Syntax.Grammar.Statements
import JsxUsage.Syntax.Dialect

/-!
# Imports, exports and whole programs

The statements that tie a file to other files, the rule for a statement of any
kind, and the program as a list of statements.
-/

namespace JsxUsage
namespace Syntax

open Text (Mark Point Reply Reading)
namespace Grammar

open Text.Reading Lexeme

variable (g : Grammar)

/-! ## Imports -/

def fromClause : Reading Node := do
  keyword "from"
  return (← quotation).withRole .source

def namespaceImport : Reading Node := do
  let start ← line
  symbol "*"
  keyword "as"
  return .branch .namespaceImport start [← name]

def plainSpecifier : Reading (List Node) := do
  let renamed : Reading Node := do
    keyword "as"
    return (← name).withRole .localName
  let parts ← (do
      let source ← name
      let target ← optional renamed
      return source.withRole .name :: target.toList)
    <|> (do
      let source ← quotation
      return [source.withRole .name, ← renamed])
  guard ((← atSymbol ",") || (← atSymbol "\x7d"))
  return parts

def typeMark : Reading Unit := do
  guard g.typed
  keyword "type" <|> keyword "typeof"

def importSpecifier : Reading Node := do
  let start ← line
  let parts ← plainSpecifier <|> (do g.typeMark; plainSpecifier)
  return .branch .importSpecifier start parts

def namedImports : Reading Node := do
  let start ← line
  symbol "\x7b"
  let items ← optional (listed g.importSpecifier)
  symbol "\x7d"
  return .branch .namedImports start (items.getD [])

def importClause : Reading Node := do
  let start ← line
  let group : Reading Node := namespaceImport <|> g.namedImports
  let parts ← (do return [← group])
    <|> (do
      let main ← name
      let others ← optional (do symbol ","; group)
      return main :: others.toList)
  return .branch .importClause start parts

def importAttributes : Reading Node := do
  (keyword "with" <|> keyword "assert")
  g.object

def importStatement : Reading Node := do
  let start ← line
  keyword "import"
  let bound : Reading (List Node) := do
    let clause ← g.importClause
    return [clause, ← fromClause]
  let required : Reading (List Node) := do
    let _ ← word
    symbol "="
    keyword "require"
    symbol "("
    let _ ← quoted
    symbol ")"
    return []
  let plain : Reading (List Node) := do
    return [(← quotation).withRole .source]
  let any : Reading (List Node) :=
    bound <|> plain <|> (do guard g.typed; required)
  let parts ← (do g.typeMark; any) <|> any
  let attributes ← optional g.importAttributes
  g.ends false
  return .branch .importStatement start (parts ++ attributes.toList)

/-! ## Exports -/

def exportName : Reading Node := name <|> quotation

def exportSpecifier : Reading Node := do
  let start ← line
  let plain : Reading (List Node) := do
    let source ← exportName
    let target ← optional (do keyword "as"; exportName)
    guard ((← atSymbol ",") || (← atSymbol "\x7d"))
    return source :: target.toList
  let _ ← plain <|> (do g.typeMark; plain)
  return .branch .operation start []

def exportedNames : Reading (List Node) := do
  symbol "\x7b"
  let _ ← optional (listed g.exportSpecifier)
  symbol "\x7d"
  let source ← optional fromClause
  g.ends false
  return source.toList

def exportedModule : Reading (List Node) := do
  symbol "*"
  let _ ← optional (do keyword "as"; exportName)
  let source ← fromClause
  g.ends false
  return [source]

def exportedDefault : Reading (List Node) := do
  keyword "default"
  (do return [← g.declaration])
  <|> (do
    let value ← g.expression ⟨true, true⟩
    g.ends true
    return [value.withRole .value])

def exportedTyped : Reading (List Node) :=
  (do
    keyword "type"
    g.exportedNames)
  <|> (do
    symbol "="
    let value ← g.expression ⟨true, true⟩
    g.ends true
    return [value])
  <|> (do
    keyword "as"
    keyword "namespace"
    let _ ← word
    g.ends false
    return [])

def exportStatement (start : Nat) (decorators : List Node) : Reading Node := do
  keyword "export"
  let decorated : Reading (List Node) := do
    guard (← atSymbol "@")
    let start ← line
    let more ← many g.decorator
    return [← g.classDeclaration start more]
  let parts ← g.exportedNames <|> g.exportedModule <|> g.exportedDefault
    <|> (do guard g.typed; g.exportedTyped)
    <|> decorated
    <|> (do return [← g.declaration])
  return .branch .exportStatement start (decorators ++ parts)

/-! ## Statements of any kind -/

def decoratedStatement : Reading Node := do
  let start ← line
  let decorators ← many g.decorator
  if (← nextWord) == "export" then g.exportStatement start decorators
  else g.classDeclaration start decorators

def wordStatement (w : String) : Reading Node := do
  let start ← line
  match g.controlStatement w with
  | some body => return .branch .statement start (← body)
  | none =>
      match w with
      | "export" => g.exportStatement start []
      | "import" =>
          if ← ahead (do keyword "import"; symbol "(" <|> symbol ".") then
            g.expressionStatement
          else g.importStatement <|> (do guard g.typed; g.importAlias)
      | _ =>
          if ← labelAhead then g.labelled
          else g.declaration <|> (do
            guard (!List.contains ["var", "const"] w)
            guard (!(w == "let" && (← lexicalAhead)))
            guard (!(g.typed && ["interface", "enum", "abstract"].contains w))
            guard (!(["function", "async"].contains w && (← namedFunctionAhead)))
            guard (!(w == "class" && (← g.namedClassAhead)))
            g.expressionStatement)

def statementRule : Reading Node := do
  skipWith (!g.typed)
  let start ← line
  match (← upcoming) with
  | '\x7b' :: _ =>
      g.block <|> (do
        guard (← entriesAhead)
        g.expressionStatement)
  | ';' :: _ => do
      symbol ";"
      return .branch .statement start []
  | '@' :: _ => g.decoratedStatement <|> g.expressionStatement
  | [] => fail
  | _ =>
      match (← nextWord) with
      | "" => g.expressionStatement
      | w => g.wordStatement w

end Grammar

/-! ## Programs -/

def Grammar.rule (g : Grammar) : Goal -> Reading Node
  | .statement => g.statementRule
  | .block => g.blockRule
  | .expression mode => g.expressionRule mode
  | .element => g.elementRule
  | .pattern => g.patternRule
  | .typeExpression => g.typeRule

/-- Read a goal with at most `depth` goals inside one another. -/
def reachUpTo (typed : Bool) : Nat -> Goal -> Reading Node
  | 0, _ => Reading.fail
  | depth + 1, goal => (Grammar.mk typed (reachUpTo typed depth)).rule goal

def skipHashBang : Reading Unit := do
  Lexeme.skip
  match (← Reading.point).rest with
  | '#' :: '!' :: rest =>
      Reading.advance (2 + Lexeme.spanLength (fun c => c != '\n') rest)
  | _ => pure ()

def statements (typed : Bool) : Reading (List Node × Point) := do
  skipHashBang
  -- Each goal passes a character before it meets itself again.
  let depth := 8 * ((← Reading.point).bound + 1)
  let items ← Reading.many (reachUpTo typed depth .statement)
  Lexeme.skipWith (!typed)
  return (items, ← Reading.point)

/-- The line of the place that stopped the reading: the deepest lexeme that
could not be used or, if that is the end of the text, the statement that has
no end. -/
def stopLine (p : Point) : Nat :=
  if p.deepest.offset < p.bound then (p.deepest.later p.mark).line else p.line

/-- The syntax tree of a text.  If the text cannot be read to its end, the tree
holds the statements before the failure and one error node. -/
def parse (dialect : Dialect) (text : String) : Node :=
  match statements dialect.isTyped (Point.first text.toList) with
  | .done (items, last) _ =>
      match last.rest with
      | [] => .branch .program 1 items
      | _ => .branch .program 1 (items ++ [.branch .error (stopLine last) []])
  | .stuck m => .branch .program 1 [.branch .error m.line []]

end Syntax
end JsxUsage
