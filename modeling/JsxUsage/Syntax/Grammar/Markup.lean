import JsxUsage.Syntax.Grammar.Types

/-!
# Markup elements

An element is a tag that closes itself, or an opening tag, children and a
closing tag.  The names of opening and closing tags need not agree, and a tag
without a name makes a fragment.  Between children, blanks and comments mean
nothing; a run of text begins at the first other character and then holds
whatever comes, up to the end of its line.
-/

namespace JsxUsage
namespace Syntax

open Text (Mark Point Reply Reading isHexDigit)
namespace Grammar

open Text.Reading Lexeme

variable (g : Grammar)

/-! ## Names -/

def hyphenatedLength (cs : List Char) : Nat :=
  let plain := fun (c : Char) => c.isAlphanum || c == '_' || c == '$'
  match cs with
  | c :: _ =>
      if plain c && !c.isDigit then
        let n := spanLength plain cs
        match cs.drop n with
        | '-' :: rest => n + 1 + spanLength (fun c => plain c || c == '-') rest
        | _ => 0
      else 0
  | [] => 0

/-- A tag or attribute name: a word that may contain hyphens. -/
def tagWord : Reading String := do
  skip
  let cs := (← point).rest
  match max (hyphenatedLength cs) (wordLength cs) with
  | 0 => fail
  | n =>
      advance n
      return String.ofList (cs.take n)

/-- The name of an element: a word, words with a colon between them, or words
with dots between them. -/
def tagName : Reading Node := do
  let start ← line
  let plain := hyphenatedLength (← point).rest == 0
  let first ← tagWord
  let member : Reading Node := do
    guard plain
    let steps ← many (do symbol "."; word)
    guard (!steps.isEmpty)
    return .leaf .memberExpression start (".".intercalate (first :: steps))
  let spaced : Reading Node := do
    symbol ":"
    let second ← tagWord
    return .leaf .jsxNamespaceName start (first ++ ":" ++ second)
  member <|> spaced <|> return .leaf .identifier start first

/-! ## Attributes -/

/-- The length of a character reference such as `&amp;`, zero if there is none. -/
def referenceLength : List Char -> Nat
  | '&' :: '#' :: x :: rest =>
      let hex := x == 'x' || x == 'X'
      let digits := if hex then rest else x :: rest
      let n := spanLength (if hex then isHexDigit else Char.isDigit) digits
      let most := if hex then 6 else 5
      if 0 < n && n ≤ most && (digits.drop n).head? == some ';' then
        (if hex then 3 else 2) + n + 1
      else 0
  | '&' :: rest =>
      let n := spanLength Char.isAlpha rest
      if 0 < n && n ≤ 30 && (rest.drop n).head? == some ';' then n + 2 else 0
  | _ => 0

/-- The length of an attribute's text up to its quote or a character reference.
An ampersand that cannot begin a reference takes the next character along. -/
def attributeChars (quote : Char) : List Char -> Nat
  | [] => 0
  | '&' :: c :: rest =>
      if c == '#' || c.isAlpha then 0 else 2 + attributeChars quote rest
  | c :: rest => if c == quote || c == '&' then 0 else 1 + attributeChars quote rest

/-- A quoted attribute value.  It has no escapes and may hold line ends. -/
def attributeText : Reading Node := do
  let start ← line
  match (← point).rest with
  | q :: _ =>
      if q == '"' || q == '\'' then
        advance 1
        let _ ← many (do
          let cs := (← point).rest
          match attributeChars q cs with
          | 0 =>
              match referenceLength cs with
              | 0 => fail
              | n => advance n
          | n => advance n)
        match (← point).rest with
        | c :: _ => if c == q then advance 1 else fail
        | [] => fail
        return .leaf .string start ""
      else fail
  | [] => fail

def braced : Reading Node := do
  let start ← line
  symbol "\x7b"
  let content ← optional ((do
      symbol "..."
      g.inner)
    <|> g.sequence ⟨false, true⟩)
  symbol "\x7d"
  return .branch .jsxExpression start content.toList

def tagAttribute : Reading Node :=
  g.braced <|> (do
    let start ← line
    let _ ← tagWord
    let _ ← optional (do symbol ":"; tagWord)
    let value ← optional (do
      chars "="
      attributeText <|> g.braced <|> g.element)
    return .branch .jsxAttribute start value.toList)

/-! ## Children -/

/-- The length of a run of text at the front, zero if there is none.  It ends
before a brace, an angle bracket, an ampersand or the end of the line, and has
no spaces at its end. -/
def textLength (cs : List Char) : Nat :=
  let run := cs.takeWhile fun c =>
    !(c == '\x7b' || c == '\x7d' || c == '<' || c == '>' || c == '&' || c == '\n')
  (Text.trimBack (· == ' ') run).length

/-- Pass the blanks and comments before a child.  A comment is passed only if
no run of text that begins with it is longer. -/
def skipBetween (page : Bool) : Nat -> Point -> Point
  | 0, p => p
  | budget + 1, p =>
      match spanLength isSpace p.rest with
      | 0 =>
          match comment? p.rest with
          | some n =>
              if textLength p.rest ≤ n then skipBetween page budget (p.drop n) else p
          | none =>
              match (if page then pageComment? p.rest else none) with
              | some n => skipBetween page budget (p.drop n)
              | none => p
      | n => skipBetween page budget (p.drop n)

def child : Reading Node := do
  let page := !g.typed
  (fun p => Reply.done () (skipBetween page p.bound p) : Reading Unit)
  let p ← point
  match p.rest with
  | '\x7b' :: _ => g.braced
  | '<' :: '/' :: _ => fail
  | '<' :: _ => g.element
  | '&' :: _ =>
      match referenceLength p.rest with
      | 0 => fail
      | n =>
          advance n
          return .leaf .jsxText p.line ""
  | _ =>
      match textLength p.rest with
      | 0 => fail
      | n =>
          advance n
          return .leaf .jsxText p.line ""

def closingTag : Reading Node := do
  (fun p => Reply.done () (skipBetween (!g.typed) p.bound p) : Reading Unit)
  let start ← line
  chars "</"
  let named ← optional tagName
  chars ">"
  return .branch .jsxClosingElement start ((named.map (·.withRole .name)).toList)

/-! ## Elements -/

def tagContent : Reading (List Node) := do
  let named ← tagName
  let arguments ←
    if g.typed && named.kind != .jsxNamespaceName then optional g.typeArguments
    else pure none
  let attributes ← many g.tagAttribute
  return named.withRole .name :: (arguments.toList ++ attributes)

def elementRule : Reading Node := do
  let start ← line
  chars "<"
  let content ← optional g.tagContent
  let closed ← optional (chars "/>")
  match closed, content with
  | some _, some parts => return .branch .jsxSelfClosingElement start parts
  | some _, none => fail
  | none, _ =>
      chars ">"
      let opening := Node.branch .jsxOpeningElement start (content.getD [])
      let children ← many g.child
      let closing ← g.closingTag
      return .branch .jsxElement start (opening.withRole .openTag :: children ++ [closing])

end Grammar
end Syntax
end JsxUsage
