import JsxUsage.Failure
import JsxUsage.FileTree.Basic
import JsxUsage.Index
import JsxUsage.Source.SourceFile

/-!
# The parse cache

The cache reads each file at most once.  A request first opens the slot of the
file's absolute path, and then fills the slot unless it is full already.  What a
slot holds never changes, so every request for a file gets the same result,
whatever happens to the file in the meantime.
-/

namespace JsxUsage

/-- What became of reading a file: the message of a failure, or the file. -/
abbrev LoadResult := Except String SourceFile

structure ParseCache where
  strict : Bool
  /-- The slots.  One that is full holds the file, or nothing if the file failed. -/
  slots : Index Path (Option (Option SourceFile))
  failed : Index Path String
  parses : Nat

namespace ParseCache

def new (strict : Bool) : ParseCache := ⟨strict, Index.empty, Index.empty, 0⟩

/-! ## Reading a file -/

def load (strict : Bool) (t : FileTree) (path : Path) : Except Failure SourceFile :=
  match t.readText path with
  | .error e => .error (.io (path.text ++ ": " ++ e.message))
  | .ok text =>
      match SourceFile.dialectOf? path with
      | none => .error (.parse path "unknown JavaScript extension")
      | some dialect =>
          let file := SourceFile.ofText path dialect text
          if strict && file.hasSyntaxError then
            let line := file.firstErrorLine?.getD 1
            .error (.parse path ("syntax error near line " ++ toString line))
          else .ok file

def failureMessage : Failure -> String
  | .parse _ message => message
  | other => other.message

def outcome (strict : Bool) (t : FileTree) (path : Path) : LoadResult :=
  (load strict t path).mapError failureMessage

/-!
## Slots

A slot is opened before its file is read and is filled once.
-/

def openSlot (c : ParseCache) (key : Path) : ParseCache :=
  if c.slots.contains key then c else { c with slots := c.slots.put key none }

def keep (c : ParseCache) (key : Path) : LoadResult -> ParseCache
  | .ok file =>
      { c with
        slots := c.slots.put key (some (some file))
        parses := c.parses + 1 }
  | .error message =>
      { c with
        slots := c.slots.put key (some none)
        failed := c.failed.put key message
        parses := c.parses + 1 }

def fillSlot (c : ParseCache) (t : FileTree) (key : Path) : ParseCache :=
  match c.slots.get? key with
  | some none => c.keep key (outcome c.strict t key)
  | _ => c

def source? (c : ParseCache) (key : Path) : Option SourceFile :=
  match c.slots.get? key with
  | some (some held) => held
  | _ => none

/-- Ask for a file: the cache afterwards, and the file unless it failed. -/
def get (c : ParseCache) (t : FileTree) (path : Path) : ParseCache × Option SourceFile :=
  let key := t.absolute path
  let filled := (c.openSlot key).fillSlot t key
  (filled, filled.source? key)

def getAll (c : ParseCache) (t : FileTree) (paths : List Path) : ParseCache :=
  paths.foldl (fun c path => (c.get t path).1) c

def size (c : ParseCache) : Nat := c.slots.size

def failures (c : ParseCache) : List (Path × String) :=
  c.failed.pairs.mergeSort fun a b => a.1.le b.1

end ParseCache
end JsxUsage
