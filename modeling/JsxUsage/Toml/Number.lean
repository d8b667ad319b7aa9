import JsxUsage.Text.Digits
import JsxUsage.Toml.Value

/-!
# Numbers and dates of TOML

Readers for what begins with a digit or a sign.  A text that begins like a date
or a time must be one.  Integers have 64 bits.
-/

namespace JsxUsage
namespace Toml

/-! ## Digits -/

/-- The digits behind the first one.  An underscore may stand between two
digits, and is left out. -/
def moreDigits (isDigit : Char -> Bool) : List Char -> Option (List Char × List Char)
  | '_' :: c :: rest =>
      if isDigit c then (moreDigits isDigit rest).map fun (ds, behind) => (c :: ds, behind)
      else none
  | c :: rest =>
      if isDigit c then (moreDigits isDigit rest).map fun (ds, behind) => (c :: ds, behind)
      else if c == '_' then none
      else some ([], c :: rest)
  | [] => some ([], [])

def digits (isDigit : Char -> Bool) : List Char -> Option (List Char × List Char)
  | c :: rest =>
      if isDigit c then (moreDigits isDigit rest).map fun (ds, behind) => (c :: ds, behind)
      else none
  | [] => none

def wholeDigits : List Char -> Option (List Char × List Char)
  | '0' :: rest => some (['0'], rest)
  | cs => digits Char.isDigit cs

def digitsValue (base : Nat) (ds : List Char) : Nat :=
  ds.foldl (fun n c => base * n + (Text.hexValue? c).getD 0) 0

/-- Split a sign from the front; true for minus. -/
def sign : List Char -> Bool × List Char
  | '-' :: rest => (true, rest)
  | '+' :: rest => (false, rest)
  | cs => (false, cs)

/-! ## Integers -/

def boundedInteger (n : Int) : Option Value :=
  if -9223372036854775808 ≤ n && n ≤ 9223372036854775807 then some (.integer n) else none

def basedInteger (base : Nat) (isDigit : Char -> Bool) (cs : List Char) :
    Option (Value × List Char) :=
  match digits isDigit cs with
  | none => none
  | some (ds, rest) => (boundedInteger (digitsValue base ds)).map fun v => (v, rest)

/-! ## Numbers with a fraction or an exponent -/

/-- Whether `digits * 10 ^ exponent` is too large for a number of double
precision, that is, not below the middle between the largest one and the next
power of two. -/
def overflows (digits : Nat) (exponent : Int) : Bool :=
  let length : Int := (Nat.toDigits 10 digits).length
  if digits == 0 then false
  else if 310 < length + exponent then true
  else if length + exponent < 300 then false
  else
    let bound := Nat.pow 2 1024 - Nat.pow 2 970
    if 0 ≤ exponent then bound ≤ digits * Nat.pow 10 exponent.toNat
    else bound * Nat.pow 10 (-exponent).toNat ≤ digits

/-- The exponent behind a number; zero if there is none. -/
def exponent : List Char -> Option (Int × List Char)
  | e :: rest =>
      if e == 'e' || e == 'E' then
        let (negative, cs) := sign rest
        (digits Char.isDigit cs).map fun (ds, behind) =>
          let n : Int := digitsValue 10 ds
          (if negative then -n else n, behind)
      else some (0, e :: rest)
  | [] => some (0, [])

def fraction : List Char -> Option (List Char × List Char)
  | '.' :: rest => digits Char.isDigit rest
  | cs => some ([], cs)

def goesOn : List Char -> Bool
  | c :: _ => c == '.' || c == 'e' || c == 'E'
  | [] => false

def decimal (cs : List Char) : Option (Value × List Char) :=
  let (negative, unsigned) := sign cs
  match wholeDigits unsigned with
  | none => none
  | some (whole, rest) =>
      if goesOn rest then
        match fraction rest with
        | none => none
        | some (part, rest) =>
            match exponent rest with
            | none => none
            | some (power, behind) =>
                let tooLarge := overflows (digitsValue 10 (whole ++ part)) (power - part.length)
                if tooLarge && !negative then none
                else
                  some (.float (String.ofList (cs.take (cs.length - behind.length))), behind)
      else
        let n : Int := digitsValue 10 whole
        (boundedInteger (if negative then -n else n)).map fun v => (v, rest)

def special : List Char -> Option (Value × List Char)
  | 'i' :: 'n' :: 'f' :: rest => some (.float "inf", rest)
  | 'n' :: 'a' :: 'n' :: rest => some (.float "nan", rest)
  | _ => none

/-! ## Dates and times -/

def twoDigits (first last : Nat) : List Char -> Option (Nat × List Char)
  | a :: b :: rest =>
      if a.isDigit && b.isDigit then
        let n := digitsValue 10 [a, b]
        if first ≤ n && n ≤ last then some (n, rest) else none
      else none
  | _ => none

def daysIn (year month : Nat) : Nat :=
  if month == 2 then
    if year % 4 == 0 && (year % 100 != 0 || year % 400 == 0) then 29 else 28
  else if month == 4 || month == 6 || month == 9 || month == 11 then 30
  else 31

def monthAndDay (year : Nat) (cs : List Char) : Option (List Char) :=
  match twoDigits 1 12 cs with
  | some (month, '-' :: rest) => (twoDigits 1 (daysIn year month) rest).map Prod.snd
  | _ => none

def minutesAndSeconds (cs : List Char) : Option (List Char) :=
  match twoDigits 0 59 cs with
  | some (_, ':' :: rest) =>
      match twoDigits 0 60 rest with
      | some (_, '.' :: c :: rest) =>
          if c.isDigit then some (rest.dropWhile Char.isDigit) else some ('.' :: c :: rest)
      | some (_, rest) => some rest
      | none => none
  | _ => none

def beginsTime (cs : List Char) : Bool :=
  match twoDigits 0 23 cs with
  | some (_, ':' :: _) => true
  | _ => false

def offset : List Char -> Option (List Char)
  | 'Z' :: rest => some rest
  | 'z' :: rest => some rest
  | c :: rest =>
      if c == '+' || c == '-' then
        match twoDigits 0 23 rest with
        | some (_, ':' :: rest) => (twoDigits 0 59 rest).map Prod.snd
        | _ => none
      else some (c :: rest)
  | [] => some []

def timeOfDay : List Char -> Option (List Char)
  | c :: rest =>
      if (c == 'T' || c == 't' || c == ' ') && beginsTime rest then
        (minutesAndSeconds (rest.drop 3)).bind offset
      else some (c :: rest)
  | [] => some []

def beginsDate : List Char -> Bool
  | a :: b :: c :: d :: '-' :: _ => a.isDigit && b.isDigit && c.isDigit && d.isDigit
  | _ => false

def datetime (cs : List Char) : Option (Value × List Char) :=
  let behind :=
    if beginsDate cs then
      (monthAndDay (digitsValue 10 (cs.take 4)) (cs.drop 5)).bind timeOfDay
    else minutesAndSeconds (cs.drop 3)
  behind.map fun rest => (.datetime (String.ofList (cs.take (cs.length - rest.length))), rest)

def number (cs : List Char) : Option (Value × List Char) :=
  if beginsDate cs || beginsTime cs then datetime cs
  else
    match cs with
    | '0' :: 'x' :: rest => basedInteger 16 Text.isHexDigit rest
    | '0' :: 'o' :: rest => basedInteger 8 (fun c => '0' ≤ c && c ≤ '7') rest
    | '0' :: 'b' :: rest => basedInteger 2 (fun c => c == '0' || c == '1') rest
    | _ =>
        match special (sign cs).2 with
        | some read => some read
        | none => decimal cs

end Toml
end JsxUsage
