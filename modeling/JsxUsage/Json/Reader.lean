import JsxUsage.Json.Basic
import JsxUsage.Text.Digits

/-!
# Reading JSON

A reader for documents whose numbers are natural numbers.  Blanks may stand
between any two signs.  Every reader gives the value together with the
characters behind it.
-/

namespace JsxUsage
namespace Json

def isGap (c : Char) : Bool :=
  c == ' ' || c == '\t' || c == '\n' || c == '\r'

def skipGaps (cs : List Char) : List Char :=
  cs.dropWhile isGap

/-! ## Strings -/

def hexUnit? (a b c d : Char) : Option Nat := do
  let a ← Text.hexValue? a
  let b ← Text.hexValue? b
  let c ← Text.hexValue? c
  let d ← Text.hexValue? d
  pure (((a * 16 + b) * 16 + c) * 16 + d)

def shortEscape? (c : Char) : Option Char :=
  if c == '"' || c == '\\' || c == '/' then some c
  else if c == 'b' then some '\x08'
  else if c == 't' then some '\t'
  else if c == 'n' then some '\n'
  else if c == 'f' then some '\x0c'
  else if c == 'r' then some '\r'
  else none

/-- The character of two units, the first from the upper and the second from the
lower half of the surrogates. -/
def pairChar? (upper lower : Nat) : Option Char :=
  if 0xD800 ≤ upper && upper < 0xDC00 && 0xDC00 ≤ lower && lower < 0xE000 then
    some (Char.ofNat (0x10000 + (upper - 0xD800) * 0x400 + (lower - 0xDC00)))
  else none

def unitChar? (unit : Nat) : Option Char :=
  if 0xD800 ≤ unit && unit < 0xE000 then none else some (Char.ofNat unit)

def readString : List Char -> Option (List Char × List Char)
  | [] => none
  | '"' :: rest => some ([], rest)
  | '\\' :: 'u' :: a :: b :: c :: d :: rest =>
      match hexUnit? a b c d with
      | none => none
      | some unit =>
          match unitChar? unit with
          | some ch => (readString rest).map fun (s, behind) => (ch :: s, behind)
          | none =>
              match rest with
              | '\\' :: 'u' :: a' :: b' :: c' :: d' :: rest' =>
                  match (hexUnit? a' b' c' d').bind (pairChar? unit) with
                  | none => none
                  | some ch => (readString rest').map fun (s, behind) => (ch :: s, behind)
              | _ => none
  | '\\' :: e :: rest =>
      match shortEscape? e with
      | none => none
      | some ch => (readString rest).map fun (s, behind) => (ch :: s, behind)
  | c :: rest =>
      if c == '\\' || c.toNat < 32 then none
      else (readString rest).map fun (s, behind) => (c :: s, behind)

/-! ## Values -/

def readNumber (cs : List Char) : Option (Nat × List Char) :=
  let digits := cs.takeWhile Char.isDigit
  if digits.isEmpty then none
  else if digits.head? == some '0' && 1 < digits.length then none
  else some (Nat.ofDigitChars 10 digits 0, cs.drop digits.length)

def behindWord (word : String) (cs : List Char) : Option (List Char) :=
  if word.toList.isPrefixOf cs then some (cs.drop word.length) else none

mutual

/-- A value; `fuel` bounds the values and commas that are read. -/
def readValue : (fuel : Nat) -> List Char -> Option (Json × List Char)
  | 0, _ => none
  | fuel + 1, cs =>
      match skipGaps cs with
      | '"' :: rest => (readString rest).map fun (s, behind) => (.string (String.ofList s), behind)
      | '[' :: rest =>
          match skipGaps rest with
          | ']' :: behind => some (.array [], behind)
          | inner => (readItems fuel inner).map fun (items, behind) => (.array items, behind)
      | '\x7b' :: rest =>
          match skipGaps rest with
          | '\x7d' :: behind => some (.object [], behind)
          | inner => (readMembers fuel inner).map fun (ms, behind) => (.object ms, behind)
      | 'n' :: rest => (behindWord "ull" rest).map fun behind => (.null, behind)
      | 't' :: rest => (behindWord "rue" rest).map fun behind => (.bool true, behind)
      | 'f' :: rest => (behindWord "alse" rest).map fun behind => (.bool false, behind)
      | other => (readNumber other).map fun (n, behind) => (.number n, behind)

/-- The items of an array up to its closing bracket; at least one. -/
def readItems : (fuel : Nat) -> List Char -> Option (List Json × List Char)
  | 0, _ => none
  | fuel + 1, cs =>
      match readValue fuel cs with
      | none => none
      | some (item, rest) =>
          match skipGaps rest with
          | ']' :: behind => some ([item], behind)
          | ',' :: more => (readItems fuel more).map fun (items, behind) => (item :: items, behind)
          | _ => none

/-- The members of an object up to its closing brace; at least one. -/
def readMembers : (fuel : Nat) -> List Char -> Option (List (String × Json) × List Char)
  | 0, _ => none
  | fuel + 1, cs =>
      match skipGaps cs with
      | '"' :: inner =>
          match readString inner with
          | none => none
          | some (key, rest) =>
              match skipGaps rest with
              | ':' :: inner =>
                  match readValue fuel inner with
                  | none => none
                  | some (value, rest) =>
                      let member := (String.ofList key, value)
                      match skipGaps rest with
                      | '\x7d' :: behind => some ([member], behind)
                      | ',' :: more =>
                          (readMembers fuel more).map fun (ms, behind) => (member :: ms, behind)
                      | _ => none
              | _ => none
      | _ => none

end

def ofText? (text : String) : Option Json :=
  let cs := text.toList
  match readValue (cs.length + 1) cs with
  | some (value, rest) => if (skipGaps rest).isEmpty then some value else none
  | none => none

end Json
end JsxUsage
