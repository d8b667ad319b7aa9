import JsxUsage.CommandLine.Run

/-!
# The program

The program reads those parts of the disk that its command line names into a
file tree, runs the command line in that tree, and prints and writes what comes
out of it.  Everything is decided by `CommandLine.run`; here are only reading,
printing and writing.
-/

namespace JsxUsage
namespace Disk

structure Snapshot where
  top : Entry
  whole : List (List String)

def Snapshot.covers (s : Snapshot) (place : List String) : Bool :=
  s.whole.any fun known => known.isPrefixOf place

abbrev Reading := StateT Snapshot IO

def placeOf (text : String) : List String :=
  ((Path.pieces text.toList).map String.ofList).filter (· != "")

def kindAt (place : List String) : IO (Option IO.FS.FileType) := do
  try
    let data ← ((← IO.currentDir) / (FileTree.pathOf place).text).symlinkMetadata
    return some data.type
  catch _ => return none

def namesAt (place : List String) : IO (List String) := do
  try
    let found ← ((← IO.currentDir) / (FileTree.pathOf place).text).readDir
    return found.toList.map fun entry => entry.fileName
  catch _ => return []

/-- The file at a place.  Its content is read if it is wanted. -/
def fileAt (wanted : Path -> Bool) (place : List String) : IO Entry := do
  let path := FileTree.pathOf place
  if wanted path then
    try
      return .file (Content.ofBytes (← IO.FS.readBinFile path.text).toList)
    catch _ => return .file (.text "")
  else return .file (.text "")

/-- The place to which the link at a place leads.  A link that leads nowhere has
the empty target, and one that leads to itself has itself. -/
def targetOf (place : List String) : IO Path := do
  let path := FileTree.pathOf place
  try
    return ⟨(← IO.FS.realPath path.text).toString⟩
  catch
    | .noFileOrDirectory .. => return ⟨""⟩
    | _ => return path

partial def readWhole (wanted : Path -> Bool) (place : List String) :
    StateT (List Path) IO Entry := do
  match ← kindAt place with
  | some .dir =>
      let entries ← (← namesAt place).mapM fun name => do
        return (name, ← readWhole wanted (place ++ [name]))
      return .directory entries
  | some .symlink =>
      let target ← targetOf place
      modify (target :: ·)
      return .link target
  | _ => fileAt wanted place

/-- Follow the names `todo` from a place, and read what they lead to with
everything below it and everything that links in it lead to. -/
partial def follow (wanted : Path -> Bool) (place : List String) :
    (todo : List String) -> Reading Unit
  | [] => do
      if (← get).covers place then return
      let (entry, targets) ← (readWhole wanted place).run []
      modify fun s => ⟨s.top.setAt place entry, place :: s.whole⟩
      for target in targets do
        follow wanted [] (placeOf target.text)
  | name :: rest => do
      if name == "." then follow wanted place rest
      else if name == ".." then follow wanted place.dropLast rest
      else
        let next := place ++ [name]
        match ← kindAt next with
        | none => pure ()
        | some .dir =>
            if ((← get).top.at? next).isNone then
              modify fun s => { s with top := s.top.setAt next (.directory []) }
            follow wanted next rest
        | some .symlink =>
            let target ← targetOf next
            unless (← get).covers next do
              modify fun s => { s with top := s.top.setAt next (.link target) }
            unless target.text == "" || target == FileTree.pathOf next do
              follow wanted [] (placeOf target.text ++ rest)
        | some _ =>
            unless (← get).covers next do
              let file ← fileAt wanted next
              modify fun s => { s with top := s.top.setAt next file }

def readPath (wanted : Path -> Bool) (t : FileTree) (path : Path) : IO FileTree := do
  let (_, s) ← (follow wanted [] (placeOf (t.absolute path).text)).run ⟨t.top, []⟩
  return { t with top := s.top }

def emptyTree : IO FileTree := do
  let working := placeOf (← IO.currentDir).toString
  return ⟨(Entry.directory []).setAt working (.directory []), working⟩

/-- The tree that a command needs: its settings file, and then its project with
the content of those files that the settings ask for. -/
def treeFor (c : CommandLine.Command) : IO FileTree := do
  let t ← (CommandLine.settingsFile? c).toList.foldlM (readPath fun _ => true) (← emptyTree)
  let settings :=
    match (CommandLine.settingsFile? c).map (Settings.loadOrInitial t) with
    | some (.ok settings) => settings
    | _ => Settings.initial
  let settled := (CommandLine.settingsFile? c).bind fun file => (t.canonical file).toOption
  match CatalogRule.ofTexts settings.analysis.extensions [] with
  | .ok rule =>
      let wanted := fun path => rule.hasExtension path || some path == settled
      (CommandLine.projectPaths c).foldlM (readPath wanted) t
  | .error _ => return t

end Disk
end JsxUsage

open JsxUsage in
def main (args : List String) : IO UInt32 := do
  let t ←
    match CommandLine.parse args with
    | .ok c => Disk.treeFor c
    | .error _ => Disk.emptyTree
  let outcome := CommandLine.run t args
  for (file, text) in outcome.written do
    IO.FS.writeFile file.text text
  IO.print outcome.stdout
  for line in outcome.errorLine do
    IO.eprintln line
  return outcome.exit.toUInt32
