import JsxUsage.Syntax.Grammar.Types

/-!
# Functions and classes

Functions written with the word `function`, methods, and classes with their
members.  A declaration has a name; an expression may go without.
-/

namespace JsxUsage
namespace Syntax

open Text (Mark Point Reply Reading)
namespace Grammar

open Text.Reading Lexeme

variable (g : Grammar)

/-! ## Functions -/

/-- The start of a function: its line and whether it is a generator. -/
def functionHead : Reading (Nat × Bool) := do
  let start ← line
  let _ ← optional (keyword "async")
  keyword "function"
  let star ← optional (symbol "*")
  return (start, star.isSome)

/-- A function with a name, as a declaration.  In a typed dialect the body may
be left out. -/
def functionDeclaration : Reading Node := do
  let (start, generator) ← functionHead
  let named ← name
  let parts ← g.signature
  if g.typed && !(← atSymbol "\x7b") then
    g.ends false
    return .branch .functionSignature start (named.withRole .name :: parts)
  else
    let body ← g.block
    let kind := if generator then Kind.generatorDeclaration else Kind.functionDeclaration
    return .branch kind start (named.withRole .name :: (parts ++ [body]))

def functionExpression : Reading Node := do
  let (start, _) ← functionHead
  let named ← optional name
  let parts ← g.signature
  let body ← g.block
  return .branch .functionExpression start
    ((named.map (·.withRole .name)).toList ++ parts ++ [body])

/-! ## Methods of objects -/

def methodModifiers : List String :=
  if g.typed then memberModifiers else ["static", "async", "get", "set"]

def method : Reading Node := do
  let start ← line
  let _ ← many (modifier g.methodModifiers)
  let key ← g.propertyName
  if g.typed then
    let _ ← optional (symbol "?")
  let parts ← g.signature
  let body ← g.block
  return .branch .functionExpression start (key :: (parts ++ [body]))

/-! ## Classes -/

def classModifiers : List String :=
  if g.typed then memberModifiers ++ ["abstract", "declare", "accessor"]
  else ["static", "async", "get", "set"]

def memberEnd (operand : Bool) : Reading Unit :=
  if g.typed then symbol "," <|> g.ends operand else g.ends operand

def staticBlock : Reading Node := do
  keyword "static"
  g.block

def classProperty : Reading Node := do
  let start ← line
  let decorators ← many g.decorator
  let modifiers ← many (modifier g.classModifiers)
  let key ← g.propertyName
  if g.typed then
    let _ ← optional (symbol "?" <|> symbol "!")
  let callable := (← atSymbol "(") || (g.typed && (← atSymbol "<"))
  if callable then
    let parts ← g.signature
    if g.typed && !(← atSymbol "\x7b") then
      g.memberEnd false
      return .branch .functionSignature start (decorators ++ key :: parts)
    else
      let body ← g.block
      let _ ← optional (symbol ";")
      return .branch .functionExpression start (decorators ++ key :: (parts ++ [body]))
  else
    guard (!(modifiers.any fun w => ["*", "async", "get", "set"].contains w))
    let type ← if g.typed then optional g.annotation else pure none
    let value ← optional (g.initializer ⟨true, true⟩)
    g.memberEnd value.isSome
    return .branch .variableDeclarator start
      (decorators ++ key :: (type.toList ++ value.toList))

def classMember : Reading Node :=
  (do
    let start ← line
    symbol ";"
    return .branch .statement start [])
  <|> g.staticBlock
  <|> (do
    guard g.typed
    let item ← g.indexSignature
    g.memberEnd false
    return item)
  <|> g.classProperty

def classBody : Reading Node := do
  let start ← line
  symbol "\x7b"
  let members ← many g.classMember
  symbol "\x7d"
  return .branch .block start members

def heritage : Reading (List Node) := do
  let extended ← optional (do
    keyword "extends"
    let value : Reading (List Node) := do
      let base ← g.inner
      let arguments ← if g.typed then optional g.typeArguments else pure none
      return base :: arguments.toList
    if g.typed then
      return (← sepBy1 value (symbol ",")).flatten
    else value)
  let implemented ←
    if g.typed then optional (do
      keyword "implements"
      sepBy1 g.typeExpression (symbol ","))
    else pure none
  return extended.getD [] ++ implemented.getD []

/-- The name of a class: a word that does not begin its heritage. -/
def className : Reading Node := do
  let named ← name
  guard (named.text != "extends" && !(g.typed && named.text == "implements"))
  return named.withRole .name

/-- A class after its decorators, the first of which stands on the line `start`.  `kind` says
how the class is used. -/
def classTail (kind : Kind) (start : Nat) (decorators : List Node) (needsName : Bool) :
    Reading Node := do
  keyword "class"
  let named ←
    if needsName then Option.some <$> g.className else optional g.className
  let params ← if g.typed then optional g.typeParameters else pure none
  let bases ← g.heritage
  let body ← g.classBody
  return .branch kind start
    (decorators ++ named.toList ++ params.toList ++ bases ++ [body])

def classDeclaration (start : Nat) (decorators : List Node) : Reading Node := do
  if g.typed then
    let _ ← optional (keyword "abstract")
  g.classTail .classDeclaration start decorators true

def classExpression : Reading Node := do
  let start ← line
  let decorators ← many g.decorator
  g.classTail .classExpression start decorators false

end Grammar
end Syntax
end JsxUsage
