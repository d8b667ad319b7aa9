/-!
# Splitting texts

Texts cut at a separator: at every single character of a kind, or once at the
first place where a longer separator stands.
-/

namespace JsxUsage
namespace Text

def splitOnce (mark : List Char) : List Char -> Option (List Char × List Char)
  | [] => if mark.isEmpty then some ([], []) else none
  | c :: rest =>
      if mark.isPrefixOf (c :: rest) then some ([], (c :: rest).drop mark.length)
      else (splitOnce mark rest).map fun (before, behind) => (c :: before, behind)

end Text
end JsxUsage
