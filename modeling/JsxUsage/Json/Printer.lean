import JsxUsage.Json.Basic

/-!
# Writing JSON

Documents are written with one item or member on a line, each level two blanks
further in.  An empty array and an empty object stay on one line.  In strings
only quotes, backslashes and control characters are escaped.
-/

namespace JsxUsage
namespace Json

def hexDigit (n : Nat) : Char :=
  if n < 10 then Char.ofNat (48 + n) else Char.ofNat (87 + n)

def escape (c : Char) : List Char :=
  if c == '"' then ['\\', '"']
  else if c == '\\' then ['\\', '\\']
  else if c == '\x08' then ['\\', 'b']
  else if c == '\t' then ['\\', 't']
  else if c == '\n' then ['\\', 'n']
  else if c == '\x0c' then ['\\', 'f']
  else if c == '\r' then ['\\', 'r']
  else if c.toNat < 32 then
    ['\\', 'u', '0', '0', hexDigit (c.toNat / 16), hexDigit (c.toNat % 16)]
  else [c]

def quote (s : String) : List Char :=
  '"' :: s.toList.flatMap escape ++ ['"']

def newLine (level : Nat) : List Char :=
  '\n' :: List.replicate (2 * level) ' '

mutual

def write (level : Nat) : Json -> List Char
  | null => "null".toList
  | bool true => "true".toList
  | bool false => "false".toList
  | number n => (toString n).toList
  | string s => quote s
  | array [] => "[]".toList
  | array (item :: rest) =>
      '[' :: newLine (level + 1) ++ write (level + 1) item ++ writeItems (level + 1) rest ++
        newLine level ++ [']']
  | object [] => "\x7b\x7d".toList
  | object ((key, value) :: rest) =>
      '\x7b' :: newLine (level + 1) ++ quote key ++ ": ".toList ++ write (level + 1) value ++
        writeMembers (level + 1) rest ++ newLine level ++ ['\x7d']

def writeItems (level : Nat) : List Json -> List Char
  | [] => []
  | item :: rest => ',' :: newLine level ++ write level item ++ writeItems level rest

def writeMembers (level : Nat) : List (String × Json) -> List Char
  | [] => []
  | (key, value) :: rest =>
      ',' :: newLine level ++ quote key ++ ": ".toList ++ write level value ++
        writeMembers level rest

end

def pretty (value : Json) : String :=
  String.ofList (write 0 value)

end Json
end JsxUsage
