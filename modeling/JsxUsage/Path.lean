/-!
# Paths

A path keeps the text in which it was written.  What it names is the list of
its parts: separators that are repeated or stand at the end, and dots inside,
make no difference, while a dot at the start and double dots are parts like
any other.  Equality and order of paths are those of the lists of parts.
-/

namespace JsxUsage

inductive Part where
  | root
  | here
  | up
  | name (text : String)
deriving Repr, DecidableEq, Inhabited

namespace Part

def rank : Part -> Nat
  | root => 0
  | here => 1
  | up => 2
  | name _ => 3

/-- The order of parts: by kind, and names by their characters. -/
def compare : Part -> Part -> Ordering
  | name a, name b => Ord.compare a b
  | a, b => Ord.compare a.rank b.rank

end Part

structure Path where
  text : String
deriving Repr, Inhabited

namespace Path

/-! ## Parts -/

def pieces (cs : List Char) : List (List Char) := cs.splitOn '/'

def isAbsolute (p : Path) : Bool :=
  p.text.toList.head? == some '/'

/-- The part that a piece stands for; `first` says that nothing precedes it. -/
def partOf (first : Bool) (piece : List Char) : Option Part :=
  if piece == [] then none
  else if piece == ['.'] then (if first then some .here else none)
  else if piece == ['.', '.'] then some .up
  else some (.name (String.ofList piece))

def parts (p : Path) : List Part :=
  match p.text.toList with
  | '/' :: rest => .root :: (pieces rest).filterMap (partOf false)
  | cs =>
      match pieces cs with
      | [] => []
      | piece :: others =>
          (partOf true piece).toList ++ others.filterMap (partOf false)

instance : BEq Path where
  beq a b := a.parts == b.parts

instance : Hashable Path where
  hash p := hash (p.parts.map fun
    | .root => "/"
    | .here => "."
    | .up => ".."
    | .name n => n)

def compareParts : List Part -> List Part -> Ordering
  | [], [] => .eq
  | [], _ :: _ => .lt
  | _ :: _, [] => .gt
  | a :: as, b :: bs => (a.compare b).then (compareParts as bs)

def compare (a b : Path) : Ordering := compareParts a.parts b.parts

instance : Ord Path where
  compare := compare

def le (a b : Path) : Bool := (a.compare b).isLE

/-! ## Building -/

/-- Put `q` behind `p`; an absolute `q` stands for itself. -/
def join (p q : Path) : Path :=
  if q.isAbsolute then q
  else if p.text == "" || p.text.toList.getLast? == some '/' then ⟨p.text ++ q.text⟩
  else ⟨p.text ++ "/" ++ q.text⟩

def partText : Part -> String
  | .root => "/"
  | .here => "."
  | .up => ".."
  | .name n => n

def ofParts (ps : List Part) : Path :=
  ps.foldl (fun path part => path.join ⟨partText part⟩) ⟨""⟩

/-! ## Looking inside -/

def fileName? (p : Path) : Option String :=
  match p.parts.getLast? with
  | some (.name n) => some n
  | _ => none

/-- The path without its last part; none for the root and for no parts. -/
def parent? (p : Path) : Option Path :=
  match p.parts.getLast? with
  | none => none
  | some .root => none
  | some _ => some (ofParts p.parts.dropLast)

/-- The characters behind the last dot of a name, unless the dot is its first
character or the name has none. -/
def extensionOf (name : String) : Option String :=
  let reversed := name.toList.reverse
  let tail := reversed.takeWhile (· != '.')
  match reversed.drop tail.length with
  | [] => none
  | [_] => none
  | _ :: _ => some (String.ofList tail.reverse)

def extension? (p : Path) : Option String :=
  p.fileName?.bind extensionOf

/-- Replace the last part, if it is a name, by `name`; else put `name` behind. -/
def withFileName (p : Path) (name : String) : Path :=
  match p.fileName? with
  | some _ => (p.parent?.getD ⟨""⟩).join ⟨name⟩
  | none => p.join ⟨name⟩

def dropStart : List Part -> List Part -> Option (List Part)
  | ps, [] => some ps
  | [], _ :: _ => none
  | p :: ps, q :: qs => if p == q then dropStart ps qs else none

def isIdle (piece : List Char) : Bool :=
  (partOf false piece).isNone

def trimIdle (ps : List (List Char)) : List (List Char) :=
  (ps.reverse.dropWhile isIdle).reverse

/-- The pieces that follow the first `n` parts; `first` says that the front is
the start of a relative path. -/
def dropPieces : Nat -> Bool -> List (List Char) -> List (List Char)
  | 0, _, ps => ps.dropWhile isIdle
  | _, _, [] => []
  | n + 1, first, piece :: others =>
      match partOf first piece with
      | none => dropPieces (n + 1) false others
      | some _ => dropPieces n false others

/-- The text of a path from its part number `n` on, as it was written, without
what stands for no part at its ends. -/
def textFrom (p : Path) (n : Nat) : String :=
  let joined := fun (ps : List (List Char)) => String.ofList (['/'].intercalate ps)
  match p.text.toList, n with
  | '/' :: rest, 0 => "/" ++ joined (trimIdle (pieces rest))
  | '/' :: rest, n + 1 => joined (trimIdle (dropPieces n false (pieces rest)))
  | cs, 0 =>
      match pieces cs with
      | [] => ""
      | piece :: others => joined (piece :: trimIdle others)
  | cs, n => joined (trimIdle (dropPieces n true (pieces cs)))

def stripStart? (p base : Path) : Option Path :=
  match dropStart p.parts base.parts with
  | none => none
  | some _ => some ⟨p.textFrom base.parts.length⟩

/-- Walk the parts from the left: dots stay, double dots go up and stay at the
start. -/
def normalParts : List Part -> List Part :=
  List.foldl (fun done part =>
    match part with
    | .here => done
    | .up => match done.getLast? with
        | some (.name _) => done.dropLast
        | _ => done
    | _ => done ++ [part]) []

end Path
end JsxUsage
