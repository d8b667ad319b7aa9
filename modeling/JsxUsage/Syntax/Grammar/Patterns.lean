import JsxUsage.Syntax.Grammar.Basic

/-!
# Binding patterns

What a declaration, a parameter or an assignment binds: a name, a member of a
value, or names taken out of an object or an array.
-/

namespace JsxUsage
namespace Syntax

open Text (Mark Point Reply Reading)
namespace Grammar

open Text.Reading Lexeme

variable (g : Grammar)

/-- Words that begin an expression of their own wherever an expression may
begin, and are therefore no names there. -/
def operandWords : List String :=
  ["this", "super", "true", "false", "null", "function", "class", "new", "import",
    "typeof", "void", "delete", "await", "yield"]

/-! ## Names taken out of a value -/

def defaulted : Reading (List Node) := do
  let target ← g.pattern
  let value ← optional (g.initializer ⟨false, true⟩)
  return target :: value.toList

def patternProperty : Reading Node := do
  let start ← line
  let rest : Reading (List Node) := do
    symbol "..."
    return [← g.pattern]
  let pair : Reading (List Node) := do
    let key ← g.propertyName
    symbol ":"
    return key :: (← g.defaulted)
  let short : Reading (List Node) := do
    let target ← name
    let value ← optional (g.initializer ⟨false, true⟩)
    return target :: value.toList
  return .branch .pattern start (← rest <|> pair <|> short)

def objectPattern : Reading Node := do
  let start ← line
  symbol "\x7b"
  let items ← holes g.patternProperty
  symbol "\x7d"
  return .branch .pattern start items

def patternElement : Reading Node := do
  let start ← line
  let _ ← optional (symbol "...")
  return .branch .pattern start (← g.defaulted)

def arrayPattern : Reading Node := do
  let start ← line
  symbol "["
  let items ← holes g.patternElement
  symbol "]"
  return .branch .pattern start items

def destructuring : Reading Node := g.objectPattern <|> g.arrayPattern

/-! ## Targets of assignments -/

/-- One step to a member: a dot and a name, an index, or in a typed dialect an
exclamation mark. -/
def memberStep : Reading (List Node) :=
  (do
    symbol "."
    let _ ← privateName <|> word
    return [])
  <|> (do
    symbol "["
    let index ← g.sequence ⟨false, true⟩
    symbol "]"
    return [index])
  <|> (do
    guard g.typed
    symbol "!"
    return [])

def nameOrMember : Reading Node := do
  let start ← line
  let head ← name
  let steps ← many g.memberStep
  match steps with
  | [] => if operandWords.contains head.text then fail else return head
  | _ => return .branch .memberExpression start (head :: steps.flatten)

def patternRule : Reading Node :=
  g.destructuring <|> g.nameOrMember

/-- What a declaration may bind: any word, or names taken out of a value. -/
def binding : Reading Node :=
  g.destructuring <|> name

end Grammar
end Syntax
end JsxUsage
