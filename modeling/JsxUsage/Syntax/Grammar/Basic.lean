import JsxUsage.Syntax.Node
import JsxUsage.Syntax.Lexeme

/-!
# The grammar as a set of goals

The grammar is recursive: a statement holds expressions, an expression holds
functions, a function holds statements.  The recursive constructs are the
goals.  Every rule is written against a `Grammar`, which knows the dialect and
can reach any goal; a rule itself is not recursive.

This module holds the goals, lists with separators, and the lexemes that carry
a node.
-/

namespace JsxUsage
namespace Syntax

open Text (Mark Point Reply Reading)

/-! ## Goals -/

structure Mode where
  closes : Bool
  typedArrow : Bool
deriving Repr, DecidableEq, Inhabited

inductive Goal where
  | statement
  | block
  | expression (mode : Mode)
  | element
  | pattern
  | typeExpression
deriving Repr, DecidableEq, Inhabited

structure Grammar where
  typed : Bool
  reach : Goal -> Reading Node

namespace Grammar

open Text.Reading Lexeme

variable (g : Grammar)

def statement : Reading Node := g.reach .statement

def block : Reading Node := g.reach .block

def expression (mode : Mode) : Reading Node := g.reach (.expression mode)

/-- An expression between brackets: no line end closes it. -/
def inner : Reading Node := g.reach (.expression ⟨false, true⟩)

def element : Reading Node := g.reach .element

def pattern : Reading Node := g.reach .pattern

def typeExpression : Reading Node := g.reach .typeExpression

def ends (operand : Bool) : Reading Unit := semicolon g.typed operand

def holes (item : Reading Node) : Reading (List Node) := do
  let first ← optional item
  let others ← many (do symbol ","; optional item)
  return (first :: others).filterMap id

def listed (item : Reading Node) : Reading (List Node) := do
  let items ← sepBy1 item (symbol ",")
  let _ ← optional (symbol ",")
  return items

def sequence (mode : Mode) : Reading Node := do
  let start ← line
  let items ← sepBy1 (g.expression mode) (symbol ",")
  match items with
  | [only] => return only
  | _ => return .branch .operation start items

/-! ## Names, values and lists -/

def name : Reading Node := do
  let start ← line
  return .leaf .identifier start (← word)

def quotation : Reading Node := do
  let start ← line
  return .leaf .string start (← quoted)

def numeral : Reading Node := do
  let start ← line
  number
  return .leaf .literal start ""

def arguments : Reading Node := do
  let start ← line
  symbol "("
  let items ← holes (do
    let _ ← optional (symbol "...")
    g.inner)
  symbol ")"
  return .branch .parenthesized start items

def initializer (mode : Mode) : Reading Node := do
  symbol "="
  g.expression mode

/-- The name of a property: a word, a private name, a quoted text, a number or
an expression in brackets. -/
def propertyName : Reading Node :=
  name <|> quotation <|> numeral
    <|> (do
      let start ← line
      return .leaf .identifier start (← privateName))
    <|> (do
      symbol "["
      let key ← g.inner
      symbol "]"
      return key)

/-! ## Templates -/

/-- One piece of a template: plain characters, an escape or a substitution. -/
def templatePiece (content : Reading Node) : Reading (List Node) := do
  let cs := (← point).rest
  match templateChars cs with
  | 0 =>
      match cs with
      | '$' :: _ =>
          advance 2
          let node ← content
          symbol "\x7d"
          return [node]
      | _ =>
          match escapeLength cs with
          | 0 => fail
          | n =>
              advance n
              return []
  | n =>
      advance n
      return []

def templateOf (content : Reading Node) : Reading Node := do
  let start ← line
  symbol "`"
  let pieces ← many (templatePiece content)
  match (← point).rest with
  | '`' :: _ =>
      advance 1
      return .branch .template start pieces.flatten
  | _ => fail

def template : Reading Node := templateOf (g.sequence ⟨false, true⟩)

end Grammar
end Syntax
end JsxUsage
