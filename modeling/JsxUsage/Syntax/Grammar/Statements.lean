import JsxUsage.Syntax.Grammar.Patterns
import JsxUsage.Syntax.Grammar.Classes

/-!
# Statements and declarations

A statement is recognised by its first word or mark.  A word that begins no
statement begins an expression, or names the statement after its colon.
-/

namespace JsxUsage
namespace Syntax

open Text (Mark Point Reply Reading)
namespace Grammar

open Text.Reading Lexeme

variable (g : Grammar)

/-! ## Variables -/

def declarator : Reading Node := do
  let start ← line
  let target ← g.binding
  let type ←
    if g.typed then do
      let _ ← optional (do
        symbol "!"
        guard (← atSymbol ":"))
      optional g.annotation
    else pure none
  let value ← optional (g.initializer ⟨true, true⟩)
  return .branch .variableDeclarator start
    (target.withRole .name :: (type.toList ++ (value.map (·.withRole .value)).toList))

def variableList (w : String) (kind : Kind) : Reading Node := do
  let start ← line
  keyword w
  let items ← sepBy1 g.declarator (symbol ",")
  -- A binding that has neither type nor value cannot go on with an operator.
  let bare := (items.getLast?.map fun d => decide (d.children.length < 2)).getD false
  g.ends (!bare)
  return .branch kind start items

def lexicalAhead : Reading Bool :=
  ahead (do
    keyword "let"
    match (← upcoming) with
    | '[' :: _ => pure ()
    | '\x7b' :: _ => pure ()
    | _ =>
        let w ← word
        guard (!List.contains ["in", "instanceof"] w))

/-! ## Typed declarations -/

def typeAlias : Reading Node := do
  let start ← line
  keyword "type"
  let _ ← word
  let params ← optional g.typeParameters
  symbol "="
  let value ← g.typeExpression
  g.ends false
  return .branch .typeDeclaration start (params.toList ++ [value])

def interface : Reading Node := do
  let start ← line
  keyword "interface"
  let _ ← word
  let params ← optional g.typeParameters
  let bases ← optional (do
    keyword "extends"
    sepBy1 g.typeExpression (symbol ","))
  let body ← g.objectType
  return .branch .typeDeclaration start (params.toList ++ bases.getD [] ++ [body])

def enumeration : Reading Node := do
  let start ← line
  let _ ← optional (keyword "const")
  keyword "enum"
  let _ ← word
  symbol "\x7b"
  let items ← optional (listed (do
    let start ← line
    let key ← g.propertyName
    let value ← optional (g.initializer ⟨false, true⟩)
    return .branch .pattern start (key :: value.toList)))
  symbol "\x7d"
  return .branch .typeDeclaration start (items.getD [])

def namedSpace : Reading Node := do
  let start ← line
  (keyword "namespace" <|> keyword "module")
  ((do let _ ← quoted) <|> (do let _ ← sepBy1 word (symbol ".")))
  let body ← optional g.block
  return .branch .typeDeclaration start body.toList

def importAlias : Reading Node := do
  let start ← line
  keyword "import"
  let _ ← word
  symbol "="
  let _ ← sepBy1 word (symbol ".")
  g.ends true
  return .branch .typeDeclaration start []

def wordAfter (w : String) : Reading Bool :=
  ahead (do keyword w; word)

def nameAfter (w : String) : Reading Bool :=
  ahead (do
    keyword w
    ((do let _ ← word) <|> (do let _ ← quoted)))

def typedDeclaration : Reading Node := do
  match (← nextWord) with
  | "type" => do guard (← wordAfter "type"); g.typeAlias
  | "interface" => g.interface
  | "enum" => g.enumeration
  | "const" => do
      guard (← ahead (do keyword "const"; keyword "enum"))
      g.enumeration
  | "namespace" => do guard (← wordAfter "namespace"); g.namedSpace
  | "module" => do guard (← nameAfter "module"); g.namedSpace
  | "abstract" => do g.classDeclaration (← line) []
  | "import" => g.importAlias
  | _ => fail

/-! ## Declarations -/

def namedFunctionAhead : Reading Bool :=
  ahead (do
    let _ ← functionHead
    word)

def namedClassAhead : Reading Bool :=
  ahead (do
    keyword "class"
    g.className)

def plainDeclaration : Reading Node := do
  match (← nextWord) with
  | "function" => do guard (← namedFunctionAhead); g.functionDeclaration
  | "async" => do guard (← namedFunctionAhead); g.functionDeclaration
  | "class" => do guard (← g.namedClassAhead); g.classDeclaration (← line) []
  | "var" => g.variableList "var" .variableDeclaration
  | "const" => g.variableList "const" .lexicalDeclaration
  | "let" => do guard (← lexicalAhead); g.variableList "let" .lexicalDeclaration
  | _ => fail

def ambient : Reading Node := do
  let start ← line
  keyword "declare"
  let everywhere : Reading Node := do
    keyword "global"
    g.block
  let body ← g.typedDeclaration <|> g.plainDeclaration <|> everywhere
  return .branch .typeDeclaration start [body]

def declaration : Reading Node :=
  if g.typed then
    (do
      guard ((← nextWord) == "declare" && (← wordAfter "declare"))
      g.ambient)
    <|> g.typedDeclaration <|> g.plainDeclaration
  else g.plainDeclaration

/-! ## Control -/

def condition : Reading Node := do
  symbol "("
  let value ← g.sequence ⟨false, true⟩
  let _ ← if g.typed then optional g.annotation else pure none
  symbol ")"
  return value

def blockRule : Reading Node := do
  let start ← line
  symbol "\x7b"
  let items ← many g.statement
  symbol "\x7d"
  return .branch .block start items

def conditional : Reading (List Node) := do
  keyword "if"
  let test ← g.condition
  let yes ← g.statement
  let no ← optional (do keyword "else"; g.statement)
  return test :: yes :: no.toList

def loopOver : Reading (List Node) := do
  symbol "("
  let declared : Reading (List Node) := do
    let w ← word
    guard (["var", "let", "const"].contains w)
    let target ← g.binding
    let value ← optional (g.initializer ⟨false, true⟩)
    return target :: value.toList
  let assigned : Reading (List Node) := do
    return [← g.pattern <|> g.condition]
  let closing : Reading Node := do
    (keyword "in" <|> keyword "of")
    let source ← g.sequence ⟨false, true⟩
    symbol ")"
    return source
  (do
    let target ← declared
    return target ++ [← closing])
  <|> (do
    let target ← assigned
    return target ++ [← closing])

def loopSteps : Reading (List Node) := do
  symbol "("
  let first ← (do return [← g.plainDeclaration])
    <|> (do
      let value ← g.sequence ⟨false, true⟩
      symbol ";"
      return [value])
    <|> (do
      symbol ";"
      return [])
  let test ← optional (g.sequence ⟨false, true⟩)
  symbol ";"
  let step ← optional (g.sequence ⟨false, true⟩)
  symbol ")"
  return first ++ test.toList ++ step.toList

def forLoop : Reading (List Node) := do
  keyword "for"
  let waits ← optional (keyword "await")
  let head ← g.loopOver <|> (do guard waits.isNone; g.loopSteps)
  let body ← g.statement
  return head ++ [body]

def whileLoop : Reading (List Node) := do
  keyword "while"
  let test ← g.condition
  return [test, ← g.statement]

def doLoop : Reading (List Node) := do
  keyword "do"
  let body ← g.statement
  keyword "while"
  let test ← g.condition
  let _ ← optional (g.ends false)
  return [body, test]

def caseBody : Reading (List Node) :=
  many (do
    guard (!List.contains ["case", "default"] (← nextWord))
    g.statement)

def switch : Reading (List Node) := do
  keyword "switch"
  let value ← g.condition
  symbol "\x7b"
  let cases ← many ((do
      keyword "case"
      let test ← g.sequence ⟨false, false⟩
      symbol ":"
      return test :: (← g.caseBody))
    <|> (do
      keyword "default"
      symbol ":"
      g.caseBody))
  symbol "\x7d"
  return value :: cases.flatten

def attempt : Reading (List Node) := do
  keyword "try"
  let body ← g.block
  let handler ← optional (do
    keyword "catch"
    let target ← optional (do
      symbol "("
      let target ← g.binding
      let _ ← if g.typed then optional g.annotation else pure none
      symbol ")"
      return target)
    return target.toList ++ [← g.block])
  let final ← optional (do keyword "finally"; g.block)
  return body :: (handler.getD [] ++ final.toList)

def withObject : Reading (List Node) := do
  keyword "with"
  let value ← g.condition
  return [value, ← g.statement]

def jump (w : String) : Reading (List Node) := do
  keyword w
  if !(← atInserted g.typed false) then
    let _ ← optional word
  g.ends false
  return []

def returning : Reading (List Node) := do
  keyword "return"
  if ← atInserted g.typed false then return []
  let value ← optional (g.sequence ⟨true, true⟩)
  g.ends value.isSome
  return value.toList

def throwing : Reading (List Node) := do
  keyword "throw"
  let value ← g.sequence ⟨true, true⟩
  g.ends true
  return [value]

def stopping : Reading (List Node) := do
  keyword "debugger"
  g.ends false
  return []

def controlStatement (w : String) : Option (Reading (List Node)) :=
  match w with
  | "if" => some g.conditional
  | "for" => some g.forLoop
  | "while" => some g.whileLoop
  | "do" => some g.doLoop
  | "switch" => some g.switch
  | "try" => some g.attempt
  | "with" => some g.withObject
  | "break" => some (g.jump "break")
  | "continue" => some (g.jump "continue")
  | "return" => some g.returning
  | "throw" => some g.throwing
  | "debugger" => some g.stopping
  | _ => none

/-! ## Expressions as statements -/

def expressionStatement : Reading Node := do
  let start ← line
  let value ← g.sequence ⟨true, true⟩
  g.ends true
  return .branch .statement start [value]

def labelled : Reading Node := do
  let start ← line
  let _ ← word
  symbol ":"
  return .branch .statement start [← g.statement]

def labelAhead : Reading Bool :=
  ahead (do
    let _ ← word
    symbol ":")

end Grammar
end Syntax
end JsxUsage
