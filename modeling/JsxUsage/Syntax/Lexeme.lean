import JsxUsage.Text.Blank
import JsxUsage.Text.Digits
import JsxUsage.Text.Reading

/-!
# Lexemes

The smallest pieces of source text: blanks and comments, words, numbers,
operators, quoted texts, and the rule by which the end of a line stands for a
semicolon.  Lengths of lexemes are plain functions of the remaining
characters; readings skip blanks and comments first and then pass a lexeme.

A word is not a keyword by itself: the grammar asks for keywords only where it
has a use for them, and everywhere else the same characters are a name.
-/

namespace JsxUsage
namespace Syntax

open Text (Mark Point Reply Reading isHexDigit)
namespace Lexeme

open Text.Reading

/-! ## Character classes -/

def isSpace (c : Char) : Bool :=
  Text.isBlank c || c == '\ufeff' || c == '\u2060' || c == '\u200b'

def isLineEnd (c : Char) : Bool :=
  c == '\n' || c == '\u2028' || c == '\u2029'

/-- The printable characters that never belong to a word. -/
def punctuation : List Char :=
  ":;`\"'@#.,|^&<=>+-*/\\%?!~()[]\x7b\x7d".toList

def isWordRest (c : Char) : Bool :=
  !(c.toNat < 0x20 || isSpace c || punctuation.contains c)

def isOctalDigit (c : Char) : Bool :=
  '0' ≤ c && c ≤ '7'

def isBinaryDigit (c : Char) : Bool :=
  c == '0' || c == '1'

def spanLength (p : Char -> Bool) (cs : List Char) : Nat :=
  (cs.takeWhile p).length

/-! ## Blanks and comments -/

def blockRest? : List Char -> Option Nat
  | [] => none
  | '*' :: '/' :: _ => some 2
  | _ :: rest => (blockRest? rest).map (· + 1)

def comment? : List Char -> Option Nat
  | '/' :: '/' :: rest => some (2 + spanLength (fun c => !(isLineEnd c || c == '\r')) rest)
  | '/' :: '*' :: rest => (blockRest? rest).map (· + 2)
  | _ => none

/-- The length of a comment in the style of a markup page: `<!--` or `-->`
and the rest of the line. -/
def pageComment? : List Char -> Option Nat
  | '<' :: '!' :: '-' :: '-' :: rest => some (4 + spanLength (fun c => !isLineEnd c) rest)
  | '-' :: '-' :: '>' :: rest => some (3 + spanLength (fun c => !isLineEnd c) rest)
  | _ => none

def skipStep (page : Bool) (cs : List Char) : Nat :=
  match spanLength isSpace cs with
  | 0 =>
      match comment? cs with
      | some n => n
      | none => if page then (pageComment? cs).getD 0 else 0
  | n => n

/-- Pass blanks and comments, at most `budget` runs of them. -/
def skipUpTo (page : Bool) : Nat -> Point -> Point
  | 0, p => p
  | budget + 1, p =>
      match skipStep page p.rest with
      | 0 => p
      | n => skipUpTo page budget (p.drop n)

def skip : Reading Unit := fun p => .done () (skipUpTo false p.bound p)

def skipWith (page : Bool) : Reading Unit := fun p =>
  .done () (skipUpTo page p.bound p)

/-- What is left of the text after blanks and comments.  Nothing is passed. -/
def upcoming : Reading (List Char) := fun p =>
  .done (skipUpTo false p.bound p).rest p

def line : Reading Nat := do
  skip
  return (← point).line

def newlineAhead : Reading Bool := fun p =>
  .done (p.line < (skipUpTo false p.bound p).line) p

/-! ## Operators and punctuation -/

def symbolLength : List Char -> Nat
  | '>' :: '>' :: '>' :: '=' :: _ => 4
  | '>' :: '>' :: '>' :: _ => 3
  | '>' :: '>' :: '=' :: _ => 3
  | '>' :: '>' :: _ => 2
  | '>' :: '=' :: _ => 2
  | '<' :: '<' :: '=' :: _ => 3
  | '<' :: '<' :: _ => 2
  | '<' :: '=' :: _ => 2
  | '=' :: '=' :: '=' :: _ => 3
  | '=' :: '=' :: _ => 2
  | '=' :: '>' :: _ => 2
  | '!' :: '=' :: '=' :: _ => 3
  | '!' :: '=' :: _ => 2
  | '*' :: '*' :: '=' :: _ => 3
  | '*' :: '*' :: _ => 2
  | '*' :: '=' :: _ => 2
  | '&' :: '&' :: '=' :: _ => 3
  | '&' :: '&' :: _ => 2
  | '&' :: '=' :: _ => 2
  | '|' :: '|' :: '=' :: _ => 3
  | '|' :: '|' :: _ => 2
  | '|' :: '=' :: _ => 2
  | '?' :: '?' :: '=' :: _ => 3
  | '?' :: '?' :: _ => 2
  | '?' :: '.' :: rest => if (rest.head?.map Char.isDigit).getD false then 1 else 2
  | '+' :: '+' :: _ => 2
  | '+' :: '=' :: _ => 2
  | '-' :: '-' :: _ => 2
  | '-' :: '=' :: _ => 2
  | '/' :: '=' :: _ => 2
  | '%' :: '=' :: _ => 2
  | '^' :: '=' :: _ => 2
  | '.' :: '.' :: '.' :: _ => 3
  | c :: _ => if punctuation.contains c then 1 else 0
  | [] => 0

def nextSymbol : Reading String := do
  let cs ← upcoming
  return String.ofList (cs.take (symbolLength cs))

def symbol (s : String) : Reading Unit := do
  skip
  let cs := (← point).rest
  let n := symbolLength cs
  if n == s.length && cs.take n == s.toList then advance n else fail

def chars (s : String) : Reading Unit := do
  skip
  if s.toList.isPrefixOf (← point).rest then advance s.length else fail

def atSymbol (s : String) : Reading Bool := do
  return (← nextSymbol) == s

/-! ## Words -/

def writtenLength : List Char -> Nat
  | '\\' :: 'u' :: '\x7b' :: rest =>
      let n := spanLength isHexDigit rest
      if 0 < n && (rest.drop n).head? == some '\x7d' then n + 4 else 0
  | '\\' :: 'u' :: rest =>
      if spanLength isHexDigit (rest.take 4) == 4 then 6 else 0
  | _ => 0

/-- The length of the rest of a word.  `owed` counts the characters that belong
to a character written by its number. -/
def wordRestLength : Nat -> List Char -> Nat
  | _, [] => 0
  | owed + 1, _ :: rest => 1 + wordRestLength owed rest
  | 0, c :: rest =>
      if isWordRest c then 1 + wordRestLength 0 rest
      else
        match writtenLength (c :: rest) with
        | 0 => 0
        | n + 1 => 1 + wordRestLength n rest

def wordLength : List Char -> Nat
  | [] => 0
  | c :: rest =>
      if c.isDigit then 0 else wordRestLength 0 (c :: rest)

def word : Reading String := do
  skip
  let cs := (← point).rest
  match wordLength cs with
  | 0 => fail
  | n =>
      advance n
      return String.ofList (cs.take n)

def keyword (w : String) : Reading Unit := do
  skip
  let cs := (← point).rest
  let n := wordLength cs
  if n == w.length && cs.take n == w.toList then advance n else fail

def nextWord : Reading String := do
  let cs ← upcoming
  return String.ofList (cs.take (wordLength cs))

def atWord (w : String) : Reading Bool := do
  return (← nextWord) == w

def privateName : Reading String := do
  skip
  match (← point).rest with
  | '#' :: rest =>
      match wordLength rest with
      | 0 => fail
      | n =>
          advance (n + 1)
          return String.ofList ('#' :: rest.take n)
  | _ => fail

/-! ## Numbers -/

def moreDigits (isDigit : Char -> Bool) : List Char -> Nat
  | '_' :: d :: rest => if isDigit d then 2 + moreDigits isDigit rest else 0
  | c :: rest => if isDigit c then 1 + moreDigits isDigit rest else 0
  | [] => 0

def digitsLength (isDigit : Char -> Bool) : List Char -> Nat
  | c :: rest => if isDigit c then 1 + moreDigits isDigit rest else 0
  | [] => 0

def exponentLength : List Char -> Nat
  | e :: rest =>
      if e == 'e' || e == 'E' then
        let sign :=
          match rest with
          | s :: _ => if s == '+' || s == '-' then 1 else 0
          | [] => 0
        match digitsLength Char.isDigit (rest.drop sign) with
        | 0 => 0
        | n => 1 + sign + n
      else 0
  | [] => 0

def basedLength (marks : List Char) (isDigit : Char -> Bool) : List Char -> Nat
  | '0' :: b :: rest =>
      if marks.contains b then
        match digitsLength isDigit rest with
        | 0 => 0
        | n => if (rest.drop n).head? == some 'n' then n + 3 else n + 2
      else 0
  | _ => 0

def decimalLength (cs : List Char) : Nat :=
  let whole := digitsLength Char.isDigit cs
  match cs.drop whole with
  | '.' :: rest =>
      let fraction := digitsLength Char.isDigit rest
      if whole == 0 && fraction == 0 then 0
      else whole + 1 + fraction + exponentLength (rest.drop fraction)
  | 'n' :: _ => if whole == 0 then 0 else whole + 1
  | rest => if whole == 0 then 0 else whole + exponentLength rest

def numberLength (cs : List Char) : Nat :=
  let based :=
    max (basedLength ['x', 'X'] isHexDigit cs)
      (max (basedLength ['o', 'O'] isOctalDigit cs)
        (basedLength ['b', 'B'] isBinaryDigit cs))
  max based (decimalLength cs)

def number : Reading Unit := do
  skip
  match numberLength (← point).rest with
  | 0 => fail
  | n => advance n

/-! ## Quoted texts -/

/-- The length of an escape at the front, the backslash included; zero if the
backslash begins no escape. -/
def escapeLength : List Char -> Nat
  | '\\' :: '\r' :: '\n' :: _ => 3
  | '\\' :: c :: rest =>
      if isOctalDigit c then 2 + min 2 (spanLength isOctalDigit rest)
      else if c == 'x' then
        if spanLength isHexDigit (rest.take 2) == 2 then 4 else 0
      else if c == 'u' then writtenLength ('\\' :: c :: rest)
      else 2
  | _ => 0

/-- The length of a quoted text after its opening quote, the closing quote
included; at most `budget` pieces. -/
def quotedRest? (quote : Char) : Nat -> List Char -> Option Nat
  | 0, _ => none
  | budget + 1, cs =>
      let n := spanLength (fun c => !(c == quote || c == '\\' || c == '\r' || c == '\n')) cs
      match cs.drop n with
      | [] => none
      | c :: rest =>
          if c == quote then some (n + 1)
          else
            match escapeLength (c :: rest) with
            | 0 => none
            | k => (quotedRest? quote budget (cs.drop (n + k))).map (· + (n + k))

def quoted : Reading String := do
  skip
  let p ← point
  match p.rest with
  | q :: rest =>
      if q == '"' || q == '\'' then
        match quotedRest? q p.bound rest with
        | some n =>
            advance (n + 1)
            return String.ofList (p.rest.take (n + 1))
        | none => fail
      else fail
  | [] => fail

/-- The length of the characters of a template up to its next break: the
closing mark, a substitution or an escape. -/
def templateChars : List Char -> Nat
  | [] => 0
  | '`' :: _ => 0
  | '\\' :: _ => 0
  | '$' :: '\x7b' :: _ => 0
  | _ :: rest => 1 + templateChars rest

def classRest? : List Char -> Option Nat
  | [] => none
  | ']' :: _ => some 1
  | '\n' :: _ => none
  | '\\' :: '\n' :: _ => none
  | '\\' :: _ :: rest => (classRest? rest).map (· + 2)
  | _ :: rest => (classRest? rest).map (· + 1)

/-- The length of a pattern up to its closing slash, the slash excluded; at
most `budget` pieces. -/
def patternLength? : Nat -> List Char -> Option Nat
  | 0, _ => none
  | budget + 1, cs =>
      match cs with
      | [] => none
      | '/' :: _ => some 0
      | '\n' :: _ => none
      | '[' :: rest =>
          match classRest? rest with
          | none => none
          | some n => (patternLength? budget (rest.drop n)).map (· + (n + 1))
      | '\\' :: '\n' :: _ => none
      | '\\' :: _ :: rest => (patternLength? budget rest).map (· + 2)
      | '\\' :: [] => none
      | _ :: rest => (patternLength? budget rest).map (· + 1)

def slashed : Reading Unit := do
  skip
  let p ← point
  match p.rest with
  | '/' :: rest =>
      match patternLength? p.bound rest with
      | some (n + 1) =>
          let flags := spanLength (fun c => 'a' ≤ c && c ≤ 'z') (rest.drop (n + 2))
          advance (n + 3 + flags)
      | _ => fail
  | _ => fail

/-! ## Inserted semicolons -/

/-- Whether the text that follows the end of a line is the start of a new
statement.  In a typed dialect a bracket goes on with the statement only after
an operand. -/
def beginsStatement (typed operand : Bool) : List Char -> Bool
  | [] => true
  | '.' :: rest => !typed && (rest.head?.map Char.isDigit).getD false
  | '+' :: rest => rest.head? == some '+'
  | '-' :: rest => rest.head? == some '-'
  | '!' :: rest => rest.head? != some '='
  | 'i' :: 'n' :: rest =>
      let letters := String.ofList (rest.takeWhile Char.isAlpha)
      letters != "" && letters != "stanceof"
  | c :: _ =>
      if typed && (c == '(' || c == '[') then !operand
      else !("`,:;*%><=[(?^|&/".toList.contains c)

/-- Whether a semicolon is inserted at the front of the text; at most `budget`
comments are looked through.  `operand` says that an operand has just ended, so
that an operator could follow. -/
def insertsSemicolon (typed operand : Bool) : Nat -> List Char -> Bool
  | 0, _ => false
  | budget + 1, cs =>
      let cs := cs.dropWhile fun c => isSpace c && !isLineEnd c
      match cs with
      | [] => true
      | '\x7d' :: _ => true
      | c :: rest =>
          if isLineEnd c then
            let after := skipUpTo false (budget + 1) ⟨rest, 0, 1, budget, ⟨0, 1⟩⟩
            beginsStatement typed operand after.rest
          else
            match comment? cs with
            | none => false
            | some n =>
                let after := skipUpTo false (budget + 1) ⟨cs, 0, 1, budget, ⟨0, 1⟩⟩
                let broken := 1 < after.line
                let next := after.rest.head?
                (broken && !operand && next != some ',' && next != some '=') ||
                  insertsSemicolon typed operand budget (cs.drop n)

def semicolon (typed operand : Bool) : Reading Unit := fun p =>
  if insertsSemicolon typed operand (p.bound + 1) p.rest then .done () p
  else symbol ";" p

def atInserted (typed operand : Bool) : Reading Bool := fun p =>
  .done (insertsSemicolon typed operand (p.bound + 1) p.rest) p

end Lexeme
end Syntax
end JsxUsage
