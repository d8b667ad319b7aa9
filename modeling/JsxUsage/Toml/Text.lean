import JsxUsage.Text.Digits

/-!
# Characters and strings of TOML

Readers for line ends, comments and the four kinds of strings.  A reader gives
what it read together with the characters behind it.
-/

namespace JsxUsage
namespace Toml

def isBlank (c : Char) : Bool := c == ' ' || c == '\t'

def skipBlanks (cs : List Char) : List Char := cs.dropWhile isBlank

/-- The characters that may stand in comments and strings: all but control
characters, of which only the tabulator is allowed. -/
def isPlain (c : Char) : Bool :=
  c == '\t' || (32 ≤ c.toNat && c.toNat != 127)

def lineEnd : List Char -> Option (List Char)
  | '\n' :: rest => some rest
  | '\r' :: '\n' :: rest => some rest
  | _ => none

def skipComment : List Char -> List Char
  | '#' :: rest => rest.dropWhile isPlain
  | cs => cs

/-- What may follow a statement on its line: blanks, a comment, and the end of
the line or of the document. -/
def finishLine (cs : List Char) : Option (List Char) :=
  match skipComment (skipBlanks cs) with
  | [] => some []
  | rest => lineEnd rest

def skipLines : (fuel : Nat) -> List Char -> List Char
  | 0, cs => cs
  | fuel + 1, cs =>
      let rest := skipBlanks cs
      match lineEnd (skipComment rest) with
      | some behind => skipLines fuel behind
      | none => rest

/-! ## Escapes -/

def hexNumber? : (value : Nat) -> List Char -> Option Nat
  | value, [] => some value
  | value, c :: rest =>
      match Text.hexValue? c with
      | none => none
      | some digit => hexNumber? (value * 16 + digit) rest

def hexChar? (digits : List Char) : Option Char :=
  match hexNumber? 0 digits with
  | none => none
  | some n => if n.isValidChar then some (Char.ofNat n) else none

def shortEscape? (c : Char) : Option Char :=
  match c with
  | 'b' => some '\x08'
  | 't' => some '\t'
  | 'n' => some '\n'
  | 'f' => some '\x0c'
  | 'r' => some '\r'
  | '"' => some '"'
  | '\\' => some '\\'
  | _ => none

/-! ## Strings -/

def consRead (c : Char) (read : Option (List Char × List Char)) :
    Option (List Char × List Char) :=
  read.map fun (s, rest) => (c :: s, rest)

def consEscape (c : Option Char) (read : Option (List Char × List Char)) :
    Option (List Char × List Char) :=
  c.bind fun c => consRead c read

def basicString : List Char -> Option (List Char × List Char)
  | [] => none
  | '"' :: rest => some ([], rest)
  | '\\' :: 'u' :: a :: b :: c :: d :: rest =>
      consEscape (hexChar? [a, b, c, d]) (basicString rest)
  | '\\' :: 'U' :: a :: b :: c :: d :: e :: f :: g :: h :: rest =>
      consEscape (hexChar? [a, b, c, d, e, f, g, h]) (basicString rest)
  | '\\' :: e :: rest => consEscape (shortEscape? e) (basicString rest)
  | c :: rest => if c != '\\' && isPlain c then consRead c (basicString rest) else none

def literalString : List Char -> Option (List Char × List Char)
  | [] => none
  | '\'' :: rest => some ([], rest)
  | c :: rest => if isPlain c then consRead c (literalString rest) else none

def endsLine (cs : List Char) : Bool :=
  (lineEnd (skipBlanks cs)).isSome

/-- A string in three double quotes, from behind the first ones.  A backslash at
the end of a line removes all blanks and line ends that follow it; `folding` says
that they are being removed.  Up to two quotes may stand before the last
three. -/
def longBasicString : (folding : Bool) -> List Char -> Option (List Char × List Char)
  | _, [] => none
  | _, '"' :: '"' :: '"' :: '"' :: '"' :: rest => some (['"', '"'], rest)
  | _, '"' :: '"' :: '"' :: '"' :: rest => some (['"'], rest)
  | _, '"' :: '"' :: '"' :: rest => some ([], rest)
  | folding, '\r' :: '\n' :: rest =>
      if folding then longBasicString true rest else consRead '\n' (longBasicString false rest)
  | folding, '\n' :: rest =>
      if folding then longBasicString true rest else consRead '\n' (longBasicString false rest)
  | _, '\\' :: 'u' :: a :: b :: c :: d :: rest =>
      consEscape (hexChar? [a, b, c, d]) (longBasicString false rest)
  | _, '\\' :: 'U' :: a :: b :: c :: d :: e :: f :: g :: h :: rest =>
      consEscape (hexChar? [a, b, c, d, e, f, g, h]) (longBasicString false rest)
  | _, '\\' :: e :: rest =>
      if endsLine (e :: rest) then longBasicString true (e :: rest)
      else consEscape (shortEscape? e) (longBasicString false rest)
  | folding, c :: rest =>
      if folding && isBlank c then longBasicString true rest
      else if c != '\\' && isPlain c then consRead c (longBasicString false rest)
      else none

def longLiteralString : List Char -> Option (List Char × List Char)
  | [] => none
  | '\'' :: '\'' :: '\'' :: '\'' :: '\'' :: rest => some (['\'', '\''], rest)
  | '\'' :: '\'' :: '\'' :: '\'' :: rest => some (['\''], rest)
  | '\'' :: '\'' :: '\'' :: rest => some ([], rest)
  | '\r' :: '\n' :: rest => consRead '\n' (longLiteralString rest)
  | '\n' :: rest => consRead '\n' (longLiteralString rest)
  | c :: rest => if isPlain c then consRead c (longLiteralString rest) else none

def dropFirstLineEnd (cs : List Char) : List Char :=
  (lineEnd cs).getD cs

/-- A string of any kind that begins here; none if no quote does. -/
def anyString : List Char -> Option (List Char × List Char)
  | '"' :: '"' :: '"' :: rest => longBasicString false (dropFirstLineEnd rest)
  | '"' :: rest => basicString rest
  | '\'' :: '\'' :: '\'' :: rest => longLiteralString (dropFirstLineEnd rest)
  | '\'' :: rest => literalString rest
  | _ => none

end Toml
end JsxUsage
