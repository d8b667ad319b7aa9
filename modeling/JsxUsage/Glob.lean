/-!
# Glob patterns

A pattern is a list of tokens: a character, any character, a character of a
set or outside it, any run of characters, or any run of whole directories.
`Glob.ofText` reads a pattern and says where a faulty one goes wrong, and
`Glob.accepts` says which texts a pattern accepts.  A run of characters may
contain slashes.
-/

namespace JsxUsage

/-- A range of characters; a single one is a range of its own. -/
structure CharRange where
  first : Char
  last : Char
deriving Repr, DecidableEq, Inhabited

def CharRange.contains (r : CharRange) (c : Char) : Bool :=
  r.first ≤ c && c ≤ r.last

inductive GlobToken where
  | char (c : Char)
  | anyChar
  | within (ranges : List CharRange)
  | outside (ranges : List CharRange)
  | anyRun
  | anyDirectories
deriving Repr, DecidableEq, Inhabited

/-! ## Faults -/

inductive GlobFaultKind where
  | tooManyStars
  | partialDirectories
  | badSet
deriving Repr, DecidableEq, Inhabited

structure GlobFault where
  position : Nat
  kind : GlobFaultKind
deriving Repr, DecidableEq, Inhabited

namespace GlobFault

def reason : GlobFaultKind -> String
  | .tooManyStars => "wildcards are either regular `*` or recursive `**`"
  | .partialDirectories => "recursive wildcards must form a single path component"
  | .badSet => "invalid range pattern"

def message (f : GlobFault) : String :=
  "Pattern syntax error near position " ++ toString f.position ++ ": " ++ reason f.kind

end GlobFault

structure Glob where
  tokens : List GlobToken
deriving Repr, DecidableEq, Inhabited

namespace Glob

/-! ## Reading -/

def rangesOf : List Char -> List CharRange
  | a :: '-' :: b :: rest => ⟨a, b⟩ :: rangesOf rest
  | a :: rest => ⟨a, a⟩ :: rangesOf rest
  | [] => []

/-- The members of a set and the characters behind its bracket.  The first
member may be a closing bracket itself. -/
def splitSet : List Char -> Option (List Char × List Char)
  | [] => none
  | first :: rest =>
      let members := rest.takeWhile (· != ']')
      match rest.drop members.length with
      | [] => none
      | _ :: behind => some (first :: members, behind)

/-- A set after its opening bracket: its token and the characters behind it. -/
def readSet : List Char -> Option (GlobToken × List Char)
  | '!' :: rest => (splitSet rest).map fun (ms, behind) => (.outside (rangesOf ms), behind)
  | rest => (splitSet rest).map fun (ms, behind) => (.within (rangesOf ms), behind)

/-- Add a run of directories, unless one that is not the first token precedes. -/
def addDirectories (tokens : List GlobToken) : List GlobToken :=
  if 1 < tokens.length && tokens.getLast? == some .anyDirectories then tokens
  else tokens ++ [.anyDirectories]

/-- Read the characters `cs`, which stand at `position` behind `previous`, and
add their tokens to `tokens`; at most `budget` tokens. -/
def readFrom (budget position : Nat) (previous : Option Char) (tokens : List GlobToken)
    (cs : List Char) : Except GlobFault (List GlobToken) :=
  match budget, cs with
  | _, [] => .ok tokens
  | 0, _ => .ok tokens
  | budget + 1, '?' :: rest =>
      readFrom budget (position + 1) (some '?') (tokens ++ [.anyChar]) rest
  | budget + 1, '*' :: rest =>
      let count := 1 + (rest.takeWhile (· == '*')).length
      let behind := rest.dropWhile (· == '*')
      if 2 < count then .error ⟨position + 2, .tooManyStars⟩
      else if count == 1 then
        readFrom budget (position + 1) (some '*') (tokens ++ [.anyRun]) rest
      else if previous.isSome && previous != some '/' then
        .error ⟨position - 1, .partialDirectories⟩
      else
        match behind with
        | [] => .ok (addDirectories tokens)
        | '/' :: further =>
            readFrom budget (position + 3) (some '/') (addDirectories tokens) further
        | _ => .error ⟨position + 2, .partialDirectories⟩
  | budget + 1, '[' :: rest =>
      match readSet rest with
      | none => .error ⟨position, .badSet⟩
      | some (token, behind) =>
          let passed := rest.length + 1 - behind.length
          readFrom budget (position + passed) (some ']') (tokens ++ [token]) behind
  | budget + 1, c :: rest =>
      readFrom budget (position + 1) (some c) (tokens ++ [.char c]) rest

def ofText (text : String) : Except GlobFault Glob :=
  let cs := text.toList
  (readFrom cs.length 0 none [] cs).map Glob.mk

/-! ## Matching -/

def tokenAccepts (c : Char) : GlobToken -> Bool
  | .char d => c == d
  | .anyChar => true
  | .within ranges => ranges.any (·.contains c)
  | .outside ranges => !ranges.any (·.contains c)
  | .anyRun => false
  | .anyDirectories => false

def remainders : List Char -> List (List Char)
  | [] => [[]]
  | c :: cs => (c :: cs) :: remainders cs

def behindSlashes : List Char -> List (List Char)
  | [] => []
  | c :: cs => if c == '/' then cs :: behindSlashes cs else behindSlashes cs

def tokensAccept : List GlobToken -> List Char -> Bool
  | [], cs => cs.isEmpty
  | .anyRun :: ts, cs => (remainders cs).any (tokensAccept ts)
  | .anyDirectories :: ts, cs =>
      tokensAccept ts cs || (behindSlashes cs).any (tokensAccept ts) || tokensAccept ts []
  | _ :: _, [] => false
  | t :: ts, c :: cs => tokenAccepts c t && tokensAccept ts cs

def accepts (g : Glob) (text : String) : Bool :=
  tokensAccept g.tokens text.toList

end Glob
end JsxUsage
