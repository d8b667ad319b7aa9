import JsxUsage.Path

/-!
# File trees

A file tree is a directory with everything below it.  An entry is a file, a
directory or a symbolic link.  A file holds either text or bytes that are no
text.  A place in a tree is the list of names that leads there from the top,
without links on the way.

Looking up a path follows links, wherever they lead, and goes up at double
dots.  A path that leads through more than forty links is given up.
-/

namespace JsxUsage

inductive Content where
  | text (s : String)
  | bytes (data : List UInt8)
deriving Repr, DecidableEq, Inhabited

/-- The content that bytes make: a text if they are one in UTF-8. -/
def Content.ofBytes (data : List UInt8) : Content :=
  match String.fromUTF8? ⟨data.toArray⟩ with
  | some s => .text s
  | none => .bytes data

inductive Entry where
  | file (content : Content)
  | directory (entries : List (String × Entry))
  | link (target : Path)
deriving Inhabited

inductive OsError where
  | notFound
  | notDirectory
  | isDirectory
  | tooManyLinks
  | notText
deriving Repr, DecidableEq, Inhabited

def OsError.message : OsError -> String
  | notFound => "No such file or directory (os error 2)"
  | notDirectory => "Not a directory (os error 20)"
  | isDirectory => "Is a directory (os error 21)"
  | tooManyLinks => "Too many levels of symbolic links (os error 40)"
  | notText => "stream did not contain valid UTF-8"

/-! ## Entries by place -/

namespace Entry

def isDirectory : Entry -> Bool
  | directory _ => true
  | _ => false

def named? (name : String) : List (String × Entry) -> Option Entry
  | [] => none
  | (n, e) :: rest => if n == name then some e else named? name rest

def at? : Entry -> List String -> Option Entry
  | e, [] => some e
  | directory entries, name :: rest =>
      match named? name entries with
      | some e => e.at? rest
      | none => none
  | _, _ :: _ => none

/-- Put `e` under `name` into a list of entries, in the place of an older entry
of that name. -/
def setNamed (name : String) (e : Entry) : List (String × Entry) -> List (String × Entry)
  | [] => [(name, e)]
  | (n, old) :: rest => if n == name then (n, e) :: rest else (n, old) :: setNamed name e rest

/-- Put `e` at a place.  Directories on the way are made; what is no directory
on the way stays as it is. -/
def setAt (tree : Entry) (place : List String) (e : Entry) : Entry :=
  match place, tree with
  | [], _ => e
  | name :: rest, directory entries =>
      let inner := (named? name entries).getD (directory [])
      directory (setNamed name (inner.setAt rest e) entries)
  | _ :: _, other => other

def removeAt (tree : Entry) : List String -> Entry
  | [] => tree
  | [name] =>
      match tree with
      | directory entries => directory (entries.filter fun entry => entry.1 != name)
      | other => other
  | name :: rest =>
      match tree with
      | directory entries =>
          match named? name entries with
          | some inner => directory (setNamed name (inner.removeAt rest) entries)
          | none => tree
      | other => other

end Entry

structure FileTree where
  top : Entry
  working : List String
deriving Inhabited

namespace FileTree

def pathOf (place : List String) : Path :=
  ⟨"/" ++ "/".intercalate place⟩

/-- A path made absolute: a relative one starts in the working directory. -/
def absolute (t : FileTree) (p : Path) : Path :=
  if p.isAbsolute then p else (pathOf t.working).join p

/-! ## Looking up -/

/-- The place to which the pieces `todo` lead from `place`, through at most
`links` links.  A link at the end is followed only if `follow` holds. -/
def locate (t : FileTree) (follow : Bool) (links : Nat) (place : List String) :
    (todo : List String) -> Except OsError (List String)
  | [] => .ok place
  | piece :: rest =>
      match t.top.at? place with
      | none => .error .notFound
      | some here =>
          if !here.isDirectory then .error .notDirectory
          else if piece == "" || piece == "." then locate t follow links place rest
          else if piece == ".." then locate t follow links place.dropLast rest
          else
            let next := place ++ [piece]
            match t.top.at? next with
            | none => .error .notFound
            | some (.link target) =>
                if rest.isEmpty && !follow then .ok next
                else
                  match links with
                  | 0 => .error .tooManyLinks
                  | links + 1 =>
                      let start := if target.isAbsolute then [] else place
                      let pieces := (Path.pieces target.text.toList).map String.ofList
                      if target.text == "" then .error .notFound
                      else locate t follow links start (pieces ++ rest)
            | some _ => locate t follow links next rest
termination_by todo => (links, todo.length)

def linkLimit : Nat := 40

def resolve (t : FileTree) (follow : Bool) (p : Path) : Except OsError (List String) :=
  if p.text == "" then .error .notFound
  else
    let start := if p.isAbsolute then [] else t.working
    t.locate follow linkLimit start ((Path.pieces p.text.toList).map String.ofList)

def entry (t : FileTree) (follow : Bool) (p : Path) : Except OsError (List String × Entry) :=
  match t.resolve follow p with
  | .error e => .error e
  | .ok place =>
      match t.top.at? place with
      | some e => .ok (place, e)
      | none => .error .notFound

def exists? (t : FileTree) (p : Path) : Bool :=
  match t.entry true p with
  | .ok _ => true
  | .error _ => false

def canonical (t : FileTree) (p : Path) : Except OsError Path :=
  (t.entry true p).map fun (place, _) => pathOf place

def readText (t : FileTree) (p : Path) : Except OsError String :=
  match t.entry true p with
  | .error e => .error e
  | .ok (_, .file (.text s)) => .ok s
  | .ok (_, .file (.bytes _)) => .error .notText
  | .ok (_, _) => .error .isDirectory

/-! ## Writing -/

/-- The place of a file that is written where the pieces `todo` lead from `place`, through at
most `links` links: the file that is there, or a new one in an existing directory. -/
def locateFile (t : FileTree) (links : Nat) (place : List String) :
    (todo : List String) -> Except OsError (List String)
  | [] => .error .isDirectory
  | piece :: rest =>
      match t.top.at? place with
      | none => .error .notFound
      | some here =>
          if !here.isDirectory then .error .notDirectory
          else if piece == "" || piece == "." then locateFile t links place rest
          else if piece == ".." then locateFile t links place.dropLast rest
          -- A slash at the end asks for a directory.
          else if !rest.isEmpty && rest.all (· == "") then .error .isDirectory
          else
            let next := place ++ [piece]
            match t.top.at? next with
            | none => if rest.isEmpty then .ok next else .error .notFound
            | some (.file _) => if rest.isEmpty then .ok next else .error .notDirectory
            | some (.directory _) => locateFile t links next rest
            | some (.link target) =>
                match links with
                | 0 => .error .tooManyLinks
                | links + 1 =>
                    let start := if target.isAbsolute then [] else place
                    let pieces := (Path.pieces target.text.toList).map String.ofList
                    if target.text == "" then .error .notFound
                    else locateFile t links start (pieces ++ rest)
termination_by todo => (links, todo.length)

def filePlace (t : FileTree) (p : Path) : Except OsError (List String) :=
  if p.text == "" then .error .notFound
  else
    let start := if p.isAbsolute then [] else t.working
    t.locateFile linkLimit start ((Path.pieces p.text.toList).map String.ofList)

def writeText (t : FileTree) (p : Path) (s : String) : Except OsError FileTree :=
  (t.filePlace p).map fun place =>
    { t with top := t.top.setAt place (.file (.text s)) }

end FileTree
end JsxUsage
