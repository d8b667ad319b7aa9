import JsxUsage.Syntax.Grammar.Patterns
import JsxUsage.Syntax.Grammar.Markup
import JsxUsage.Syntax.Grammar.Classes

/-!
# Expressions

An expression is a chain of operands with operators between them; each operand
may have operators before it and members, calls or further marks after it.
How strongly operators bind plays no part here, so a chain becomes one node
with its operands in order.
-/

namespace JsxUsage
namespace Syntax

open Text (Mark Point Reply Reading)
namespace Grammar

open Text.Reading Lexeme

variable (g : Grammar)

/-! ## Arrow functions -/

def arrowHead (mode : Mode) : Reading (List Node) := do
  let before ← if g.typed then optional g.typeParameters else pure none
  let params ← g.parameters
  let result ←
    if g.typed && mode.typedArrow then optional g.resultAnnotation else pure none
  symbol "=>"
  return before.toList ++ params :: result.toList

/-- Whether braces at this point can hold the entries of an object: a key with
a colon or a comma after it, or a spread. -/
def entriesAhead : Reading Bool :=
  ahead (do
    symbol "\x7b"
    symbol "..." <|> (do
      let _ ← name <|> quotation <|> numeral
      symbol ":" <|> symbol ","))

def arrowBody (mode : Mode) : Reading Node := do
  if ← atSymbol "\x7b" then
    g.block <|> (do
      guard (← entriesAhead)
      g.expression mode)
  else g.expression mode

def arrow (mode : Mode) : Reading Node := do
  let start ← line
  let _ ← optional (do
    keyword "async"
    guard ((← atSymbol "(") || (g.typed && (← atSymbol "<"))))
  let head ← g.arrowHead mode
  let body ← g.arrowBody mode
  return .branch .arrowFunction start (head ++ [body])

def shortArrow (mode : Mode) : Reading Node := do
  let start ← line
  let _ ← optional (do
    keyword "async"
    guard (!(← atSymbol "=>")))
  let param ← name
  guard (!operandWords.contains param.text)
  symbol "=>"
  let body ← g.arrowBody mode
  return .branch .arrowFunction start [param, body]

/-! ## Operands -/

def parenthesized : Reading Node := do
  let start ← line
  symbol "("
  let value ← g.sequence ⟨false, true⟩
  let type ← if g.typed then optional g.annotation else pure none
  symbol ")"
  return .branch .parenthesized start (value :: type.toList)

/-- Parentheses around expressions or around parameters: an arrow behind them
makes them parameters.  In a typed dialect a colon may begin a result type, or
else the last part of a choice. -/
def group (mode : Mode) : Reading Node := fun p =>
  match g.parenthesized p with
  | .stuck m => g.arrow mode (p.note m)
  | .done node next =>
      if (atSymbol "=>").holds next then g.arrow mode p
      else if g.typed && mode.typedArrow && (atSymbol ":").holds next then
        match g.arrow mode p with
        | .done function after => .done function after
        | .stuck m => .done node (next.note m)
      else .done node next

def objectEntry : Reading Node := do
  let start ← line
  let spread : Reading Node := do
    symbol "..."
    g.inner
  let pair : Reading Node := do
    let key ← g.propertyName
    symbol ":"
    return .branch .operation start [key, ← g.inner]
  let short : Reading Node := do
    let named ← name
    guard ((← atSymbol ",") || (← atSymbol "\x7d"))
    return named
  spread <|> pair <|> g.method <|> short

def object : Reading Node := do
  let start ← line
  symbol "\x7b"
  let entries ← holes g.objectEntry
  symbol "\x7d"
  return .branch .object start entries

def array : Reading Node := do
  let start ← line
  symbol "["
  let items ← holes (do
    let _ ← optional (symbol "...")
    g.inner)
  symbol "]"
  return .branch .array start items

def valueOrPattern (value target : Reading Node) : Reading Node :=
  (do
    let node ← value
    guard (!(← atSymbol "="))
    return node)
  <|> (do
    let node ← target
    guard (← atSymbol "=")
    return node)

def construction (callee : Reading Node) : Reading Node := do
  let start ← line
  keyword "new"
  (do
    symbol "."
    keyword "target"
    return .branch .memberExpression start [])
  <|> (do
    let made ← callee
    let types ←
      if g.typed then optional (do
        let types ← g.typeArguments
        guard (← atSymbol "(")
        return types)
      else pure none
    let args ← optional g.arguments
    return .branch .callExpression start (made :: (types.toList ++ args.toList)))

/-- The word `import` as an operand: it is called, or its `meta` is taken. -/
def importOperand : Reading Node := do
  let start ← line
  keyword "import"
  guard ((← atSymbol "(") || (← atSymbol "."))
  return .leaf .identifier start "import"

def wordOperand (mode : Mode) (construct : Reading Node) : Reading Node := do
  let start ← line
  match (← nextWord) with
  | "" => fail
  | "function" => g.functionExpression
  | "class" => g.classExpression
  | "new" => construct
  | "import" => importOperand
  | "async" =>
      (do
        guard (← ahead (do keyword "async"; keyword "function"))
        g.functionExpression) <|> g.shortArrow mode <|> g.arrow mode <|> name
  | w =>
      if ["this", "super", "true", "false", "null"].contains w then
        let _ ← word
        return .leaf .literal start w
      else if operandWords.contains w then fail
      else g.shortArrow mode <|> name

def privateOperand : Reading Node := do
  let start ← line
  let text ← privateName
  guard (← atWord "in")
  return .leaf .literal start text

def primary (mode : Mode) (construct : Reading Node) : Reading Node := do
  let start ← line
  match (← upcoming) with
  | '(' :: _ => g.group mode
  | '[' :: _ => valueOrPattern g.array g.arrayPattern
  | '\x7b' :: _ => valueOrPattern g.object g.objectPattern
  | '"' :: _ => quotation
  | '\'' :: _ => quotation
  | '`' :: _ => g.template
  | '/' :: _ => do
      slashed
      return .leaf .literal start ""
  | '<' :: _ =>
      if g.typed then g.arrow mode <|> g.element else g.element
  | '@' :: _ => g.classExpression
  | '#' :: _ => privateOperand
  | c :: _ =>
      if c.isDigit || c == '.' then numeral else g.wordOperand mode construct
  | [] => fail

/-! ## What follows an operand -/

def followsTypeArguments (cs : List Char) : Bool :=
  match cs with
  | [] => true
  | c :: _ =>
      let w := String.ofList (cs.take (wordLength cs))
      if w != "" then ["implements", "as", "satisfies", "in", "instanceof", "of"].contains w
      else !(c.isDigit || "\"'<>+-/#@![~".toList.contains c)

def suffix (mode : Mode) (calls : Bool) (node : Node) : Reading Node := do
  let start := node.line
  if mode.closes && (← atInserted g.typed true) then fail
  let member : Reading Node := do
    let _ ← privateName <|> word
    return .branch .memberExpression start [node]
  let index : Reading Node := do
    symbol "["
    let key ← g.sequence ⟨false, true⟩
    symbol "]"
    return .branch .memberExpression start [node, key]
  let call : Reading Node := do
    return .branch .callExpression start [node, ← g.arguments]
  match (← nextSymbol) with
  | "." => do symbol "."; member
  | "[" => index
  | "`" => do return .branch .callExpression start [node, ← g.template]
  | "!" => do
      guard g.typed
      symbol "!"
      return .branch .memberExpression start [node]
  | "(" => do guard calls; call
  | "?." => do
      guard calls
      symbol "?."
      index <|> call <|> member <|> (do
        guard g.typed
        let types ← g.typeArguments
        return .branch .callExpression start [node, types, ← g.arguments])
  | "++" => do
      guard calls
      symbol "++"
      return .branch .operation start [node]
  | "--" => do
      guard calls
      symbol "--"
      return .branch .operation start [node]
  | "<" => do
      guard (g.typed && calls)
      let types ← g.typeArguments
      guard (followsTypeArguments (← upcoming))
      return .branch .callExpression start [node, types]
  | _ => fail

/-- All steps from an operand on, at most `budget`. -/
def suffixes (mode : Mode) (calls : Bool) : Nat -> Node -> Reading Node
  | 0, node => pure node
  | budget + 1, node => fun p =>
      match g.suffix mode calls node p with
      | .done larger next => suffixes mode calls budget larger next
      | .stuck m => .done node (p.note m)

/-- What the word `new` is applied to, with at most `budget` such words. -/
def constructions (mode : Mode) : Nat -> Reading Node
  | 0 => fail
  | budget + 1 => g.construction (do
      let bound := (← point).bound
      let head ← g.primary mode (constructions mode budget)
      g.suffixes ⟨false, true⟩ false bound head)

def symbolsBefore : List String := ["!", "~", "-", "+", "++", "--"]

def wordsBefore : List String := ["typeof", "void", "delete", "await"]

def operatorBefore : Reading Unit := do
  skipWith (!g.typed)
  let s ← nextSymbol
  if symbolsBefore.contains s then symbol s
  else
    let w ← nextWord
    if wordsBefore.contains w then keyword w else fail

def yielding (mode : Mode) : Reading Node := do
  let start ← line
  keyword "yield"
  if mode.closes && (← atInserted g.typed false) then
    return .branch .operation start []
  let value ← (do symbol "*"; Option.some <$> g.expression mode)
    <|> optional (g.expression mode)
  return .branch .operation start value.toList

def operand (mode : Mode) : Reading Node := do
  skipWith (!g.typed)
  let start ← line
  let before ← many g.operatorBefore
  skipWith (!g.typed)
  let bound := (← point).bound
  let head ← g.yielding mode <|> (do
    let head ← g.primary mode (g.constructions mode bound)
    g.suffixes mode true bound head)
  return if before.isEmpty then head else .branch .operation start [head]

/-! ## Chains of operands -/

def symbolsBetween : List String :=
  ["+", "-", "*", "/", "%", "**", "<<", ">>", ">>>", "&", "|", "^", "&&", "||", "??",
    "==", "===", "!=", "!==", "<", "<=", ">", ">="]

def assigningSymbols : List String :=
  ["=", "+=", "-=", "*=", "/=", "%=", "^=", "&=", "|=", ">>=", ">>>=", "<<=", "**=",
    "&&=", "||=", "??="]

def isAssignable (node : Node) : Bool :=
  [Kind.identifier, .memberExpression, .parenthesized, .pattern].contains node.kind

/-- What goes on from an operand: the further parts, and the operand after
which the chain may go on again. -/
def link (mode : Mode) (last : Node) : Reading (List Node × Option Node) := do
  if mode.closes && (← atInserted g.typed true) then fail
  let s ← nextSymbol
  if symbolsBetween.contains s then
    symbol s
    let next ← g.operand mode
    return ([next], some next)
  else if assigningSymbols.contains s then
    guard (isAssignable last)
    symbol s
    return ([← g.expression mode], none)
  else if s == "?" then
    symbol "?"
    let middle (typedArrow : Bool) : Reading Node := do
      let node ← g.expression ⟨false, typedArrow⟩
      symbol ":"
      return node
    let yes ← middle true <|> (do guard g.typed; middle false)
    let no ← g.expression mode
    return ([yes, no], none)
  else
    let w ← nextWord
    if w == "in" || w == "instanceof" then
      keyword w
      let next ← g.operand mode
      return ([next], some next)
    else if g.typed && (w == "as" || w == "satisfies") then
      keyword w
      let type ← g.typeExpression
      return ([type], some type)
    else fail

/-- The further parts of a chain after the operand `last`, at most `budget`
links of it. -/
def links (mode : Mode) : Nat -> Node -> Reading (List Node)
  | 0, _ => pure []
  | budget + 1, last => fun p =>
      match g.link mode last p with
      | .stuck m => .done [] (p.note m)
      | .done (parts, none) next => .done parts next
      | .done (parts, some after) next =>
          match links mode budget after next with
          | .done others final => .done (parts ++ others) final
          | .stuck m => .stuck m

def expressionRule (mode : Mode) : Reading Node := do
  let start ← line
  let first ← g.operand mode
  match (← g.links mode (← point).bound first) with
  | [] => return first
  | others => return .branch .operation start (first :: others)

end Grammar
end Syntax
end JsxUsage
