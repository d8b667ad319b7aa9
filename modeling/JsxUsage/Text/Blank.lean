/-!
# Blank characters

The characters with the Unicode property `White_Space`, and the removal of
such characters from both ends of a text.
-/

namespace JsxUsage
namespace Text

def isBlank (c : Char) : Bool :=
  let n := c.toNat
  (9 ≤ n && n ≤ 13) || n == 0x20 || n == 0x85 || n == 0xA0 || n == 0x1680 ||
    (0x2000 ≤ n && n ≤ 0x200A) || n == 0x2028 || n == 0x2029 || n == 0x202F ||
    n == 0x205F || n == 0x3000

def trimFront (p : Char -> Bool) (cs : List Char) : List Char :=
  cs.dropWhile p

def trimBack (p : Char -> Bool) (cs : List Char) : List Char :=
  (cs.reverse.dropWhile p).reverse

def trimBoth (p : Char -> Bool) (cs : List Char) : List Char :=
  trimBack p (trimFront p cs)

def trim (s : String) : String :=
  String.ofList (trimBoth isBlank s.toList)

end Text
end JsxUsage
