/-!
# Tables of characters

A property of characters, written as the list of the ranges in which it holds.
-/

namespace JsxUsage
namespace Text

abbrev CharTable := List (Nat × Nat)

def CharTable.holds (table : CharTable) (c : Char) : Bool :=
  table.any fun (first, last) => first ≤ c.toNat && c.toNat ≤ last

end Text
end JsxUsage
