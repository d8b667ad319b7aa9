/-!
# JSON values

The values of JSON documents whose numbers are natural numbers.  The members of
an object keep their order.
-/

namespace JsxUsage

inductive Json where
  | null
  | bool (b : Bool)
  | number (n : Nat)
  | string (s : String)
  | array (items : List Json)
  | object (members : List (String × Json))
deriving Inhabited

end JsxUsage
