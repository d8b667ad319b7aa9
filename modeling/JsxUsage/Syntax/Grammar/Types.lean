import JsxUsage.Syntax.Grammar.Basic

/-!
# Types and parameters

Type expressions of the typed dialects, and the lists of parameters and of
type parameters that functions, methods and function types share.
-/

namespace JsxUsage
namespace Syntax

open Text (Mark Point Reply Reading)
namespace Grammar

open Text.Reading Lexeme

variable (g : Grammar)

/-! ## Annotations -/

def importedType : Reading Node := do
  let start ← line
  keyword "import"
  let steps ← many (
    (do
      symbol "."
      let _ ← privateName <|> word)
    <|> (do let _ ← g.arguments))
  guard (!steps.isEmpty)
  return .branch .typeSyntax start []

def annotation : Reading Node := do
  symbol ":"
  g.importedType <|> g.typeExpression

/-- A predicate on a name: that it has a type, or that it holds. -/
def predicateType : Reading Node :=
  (do
    let start ← line
    keyword "asserts"
    let _ ← word
    let inner ← optional (do keyword "is"; g.typeExpression)
    return .branch .typeSyntax start inner.toList)
  <|> (do
    let start ← line
    let _ ← word
    keyword "is"
    return .branch .typeSyntax start [← g.typeExpression])

/-- The type of a result: a predicate or a type. -/
def resultType : Reading Node :=
  g.predicateType <|> g.typeExpression

def resultAnnotation : Reading Node := do
  symbol ":"
  g.importedType <|> g.resultType

def typeArguments : Reading Node := do
  let start ← line
  symbol "<"
  let items ← listed g.typeExpression
  chars ">"
  return .branch .typeSyntax start items

def typeParameter : Reading Node := do
  let start ← line
  let plain : Reading (List Node) := do
    let _ ← word
    let bound ← optional (do
      (keyword "extends" <|> symbol ":")
      g.typeExpression)
    let value ← optional (do symbol "="; g.typeExpression)
    guard ((← atSymbol ",") || (← upcoming).head? == some '>')
    return bound.toList ++ value.toList
  let parts ← plain <|> (do keyword "const"; plain)
  return .branch .typeSyntax start parts

def typeParameters : Reading Node := do
  let start ← line
  symbol "<"
  let items ← listed g.typeParameter
  chars ">"
  return .branch .typeSyntax start items

/-! ## Parameters of functions -/

def decorator : Reading Node := do
  let start ← line
  symbol "@"
  let named : Reading (List Node) := do
    let _ ← sepBy1 word (symbol ".")
    if g.typed then
      let _ ← optional (do
        let _ ← g.typeArguments
        guard (← atSymbol "("))
    let call ← optional g.arguments
    return call.toList
  let grouped : Reading (List Node) := do
    guard g.typed
    symbol "("
    let value ← g.inner
    symbol ")"
    return [value]
  return .branch .operation start (← named <|> grouped)

def parameterModifiers : List String :=
  ["public", "private", "protected", "override", "readonly"]

def parameterModifier : Reading Unit := do
  let w ← word
  guard (parameterModifiers.contains w)
  match (← upcoming) with
  | c :: _ => guard (isWordRest c || c == '[' || c == '\x7b')
  | [] => fail

def parameter : Reading Node := do
  let start ← line
  let decorators ← if g.typed then many g.decorator else pure []
  if g.typed then
    let _ ← many parameterModifier
  let _ ← optional (symbol "...")
  let target ←
    if g.typed && (← atWord "this") then name else g.pattern
  let type ←
    if g.typed then do
      let _ ← optional (symbol "?")
      optional g.annotation
    else pure none
  let value ← optional (g.initializer ⟨false, true⟩)
  return .branch .pattern start (decorators ++ target :: (type.toList ++ value.toList))

def parameters : Reading Node := do
  let start ← line
  symbol "("
  let items ← optional (listed g.parameter)
  symbol ")"
  return .branch .parameters start (items.getD [])

def signature : Reading (List Node) := do
  if g.typed then
    let before ← optional g.typeParameters
    let params ← g.parameters
    let result ← optional g.resultAnnotation
    return before.toList ++ params :: result.toList
  else
    return [← g.parameters]

/-! ## Members of object types -/

def memberModifiers : List String :=
  ["public", "private", "protected", "static", "override", "readonly", "async", "get", "set"]

def beginsPropertyName (c : Char) : Bool :=
  isWordRest c || c == '[' || c == '#' || c == '"' || c == '\'' || c == '*' || c == '\\'

def modifier (modifiers : List String) : Reading String :=
  (do
    symbol "*"
    return "*")
  <|> (do
    let w ← word
    guard (modifiers.contains w)
    match (← upcoming) with
    | c :: _ => if beginsPropertyName c then return w else fail
    | [] => fail)

/-- A signature with a key in brackets: `[key: type]: type`, or one entry for
each member of a type. -/
def indexSignature : Reading Node := do
  let start ← line
  let _ ← optional (do
    let _ ← optional (symbol "-" <|> symbol "+")
    keyword "readonly")
  symbol "["
  let _ ← word
  let keys ← (do
      symbol ":"
      return [← g.typeExpression])
    <|> (do
      keyword "in"
      let source ← g.typeExpression
      let renamed ← optional (do keyword "as"; g.typeExpression)
      return source :: renamed.toList)
  symbol "]"
  let _ ← optional (symbol "-" <|> symbol "+")
  let _ ← optional (symbol "?")
  let type ← g.annotation
  return .branch .typeSyntax start (keys ++ [type])

def typeMember : Reading Node := do
  let start ← line
  let construct : Reading (List Node) := do
    let _ ← optional (keyword "abstract")
    keyword "new"
    let before ← optional g.typeParameters
    let params ← g.parameters
    let result ← optional g.annotation
    return before.toList ++ params :: result.toList
  let property : Reading (List Node) := do
    let _ ← many (modifier memberModifiers)
    let key ← g.propertyName
    let _ ← optional (symbol "?")
    let rest ← g.signature <|> (Option.toList <$> optional g.annotation)
    return key :: rest
  let parts ← g.signature <|> construct
    <|> (do return [← g.indexSignature]) <|> property
  return .branch .typeSyntax start parts

def objectType : Reading Node := do
  let start ← line
  symbol "\x7b"
  let _ ← optional (symbol "," <|> symbol ";")
  let items ← many (do
    let item ← g.typeMember
    (symbol "," <|> g.ends false)
    return item)
  symbol "\x7d"
  return .branch .typeSyntax start items

/-! ## Type expressions -/

def tupleMember : Reading Node :=
  (do
    let _ ← optional (symbol "...")
    let _ ← word
    let _ ← optional (symbol "?")
    g.annotation)
  <|> (do
    let _ ← optional (symbol "...")
    let item ← g.typeExpression
    let _ ← optional (symbol "?")
    return item)

def functionType : Reading Node := do
  let start ← line
  let before ← optional g.typeParameters
  let params ← g.parameters
  symbol "=>"
  let result ← g.resultType
  return .branch .typeSyntax start (before.toList ++ [params, result])

def queryType : Reading Node := do
  let start ← line
  keyword "typeof"
  let viaImport : Reading Unit := do
    keyword "import"
    let _ ← g.arguments
  (viaImport <|> (do let _ ← word))
  let _ ← many (do
    symbol "."
    let _ ← privateName <|> word)
  let arguments ← optional g.typeArguments
  return .branch .typeSyntax start arguments.toList

def actingType : Reading Node := do
  let start ← line
  let acting : Reading Node := do
    let w ← word
    guard (["keyof", "readonly", "unique"].contains w)
    g.typeExpression
  let inferred : Reading Node := do
    keyword "infer"
    let named ← name
    let _ ← optional (do keyword "extends"; g.typeExpression)
    return named
  let constructor : Reading Node := do
    let _ ← optional (keyword "abstract")
    keyword "new"
    g.functionType
  let signed : Reading Node := do
    (symbol "-" <|> symbol "+")
    numeral
  let maybe : Reading Node := do
    symbol "?"
    g.typeExpression
  let inner ← constructor <|> inferred <|> acting <|> signed <|> maybe
  return .branch .typeSyntax start [inner]

def primaryType : Reading Node := do
  let start ← line
  match (← upcoming) with
  | '(' :: _ =>
      g.functionType <|> (do
        symbol "("
        let inner ← g.typeExpression
        symbol ")"
        return .branch .typeSyntax start [inner])
  | '<' :: _ => g.functionType
  | '\x7b' :: _ => g.objectType
  | '[' :: _ => do
      symbol "["
      let items ← optional (listed g.tupleMember)
      symbol "]"
      return .branch .typeSyntax start (items.getD [])
  | '`' :: _ => templateOf g.typeExpression
  | '"' :: _ => quotation
  | '\'' :: _ => quotation
  | '*' :: _ => do
      symbol "*"
      return .branch .typeSyntax start []
  | _ =>
      g.actingType <|> g.queryType <|> (do
        let _ ← word
        return .branch .typeSyntax start []) <|> numeral

/-- What may follow a type directly: a dot and a name, type arguments, or
brackets on the same line. -/
def typeSuffix : Reading (List Node) :=
  (do
    symbol "."
    let _ ← word
    return [])
  <|> (do return [← g.typeArguments])
  <|> (do
    guard (!(← newlineAhead))
    symbol "["
    let index ← optional g.typeExpression
    symbol "]"
    return index.toList)

def suffixedType : Reading Node := do
  let start ← line
  let head ← g.primaryType
  let rest ← many g.typeSuffix
  return .branch .typeSyntax start (head :: rest.flatten)

def typeRule : Reading Node := do
  let start ← line
  let _ ← optional (symbol "|" <|> symbol "&")
  let items ← sepBy1 g.suffixedType (symbol "|" <|> symbol "&")
  let choice ← optional (do
    keyword "extends"
    let bound ← g.typeExpression
    symbol "?"
    let yes ← g.typeExpression
    symbol ":"
    let no ← g.typeExpression
    return [bound, yes, no])
  return .branch .typeSyntax start (items ++ choice.getD [])

end Grammar
end Syntax
end JsxUsage
