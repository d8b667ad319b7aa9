import JsxUsage.Counting
import JsxUsage.FileTree.Basic

/-!
# Walking a file tree

A walk lists everything that is no directory at or below a path, in the order
of the names.  Links are followed and listed under their own path.  A link to a
directory that is already open on the way down is reported and not entered, so
that every walk ends: each link that is entered opens a directory that was not
open before.
-/

namespace JsxUsage

/-! ## Directories -/

namespace Entry

mutual

def directoryPlaces : Entry -> List (List String)
  | directory entries => [] :: directoryPlacesIn entries
  | file _ => []
  | link _ => []

def directoryPlacesIn : List (String × Entry) -> List (List String)
  | [] => []
  | (name, e) :: rest => e.directoryPlaces.map (name :: ·) ++ directoryPlacesIn rest

end

theorem cons_mem_directoryPlacesIn {name : String} {e : Entry} {rest : List String}
    {entries : List (String × Entry)} (hnamed : named? name entries = some e)
    (hinside : rest ∈ e.directoryPlaces) :
    name :: rest ∈ directoryPlacesIn entries := by
  induction entries with
  | nil => cases hnamed
  | cons first others ih =>
      rcases first with ⟨n, e'⟩
      rw [directoryPlacesIn]
      by_cases hsame : (n == name) = true
      · simp only [named?, hsame, if_true, Option.some.injEq] at hnamed
        have hname : n = name := by simpa using hsame
        subst hnamed
        apply List.mem_append_left
        simpa [hname] using hinside
      · simp only [named?, hsame, Bool.false_eq_true, if_false] at hnamed
        exact List.mem_append_right _ (ih hnamed)

theorem mem_directoryPlaces_of_at? {e : Entry} {place : List String}
    {entries : List (String × Entry)} (h : e.at? place = some (directory entries)) :
    place ∈ e.directoryPlaces := by
  induction place generalizing e with
  | nil =>
      simp only [at?, Option.some.injEq] at h
      subst h
      simp [directoryPlaces]
  | cons name rest ih =>
      cases e with
      | file content => cases h
      | link target => cases h
      | directory inner =>
          rw [at?] at h
          cases hnext : named? name inner with
          | none =>
              rw [hnext] at h
              cases h
          | some below =>
              rw [hnext] at h
              rw [directoryPlaces]
              exact List.mem_cons_of_mem _ (cons_mem_directoryPlacesIn hnext (ih h))

def listing (entries : List (String × Entry)) : List (String × Entry) :=
  entries.mergeSort fun a b => a.1 ≤ b.1

theorem mem_of_mem_listing {entries : List (String × Entry)} {entry : String × Entry}
    (h : entry ∈ listing entries) : entry ∈ entries :=
  List.mem_mergeSort.mp h

theorem sizeOf_snd_lt {entries : List (String × Entry)} {entry : String × Entry}
    (h : entry ∈ entries) : sizeOf entry.2 < sizeOf (directory entries) := by
  have hlt := List.sizeOf_lt_of_mem h
  rcases entry with ⟨name, e⟩
  simp only [Prod.mk.sizeOf_spec, directory.sizeOf_spec] at hlt ⊢
  omega

end Entry

/-! ## The walk -/

inductive WalkFault where
  | unusable (path : Path) (error : OsError)
  | loop (path ancestor : Path)
deriving Repr, Inhabited

namespace WalkFault

def path : WalkFault -> Path
  | unusable p _ => p
  | loop p _ => p

def message : WalkFault -> String
  | unusable p e => "IO error for operation on " ++ p.text ++ ": " ++ e.message
  | loop p q => "File system loop found: " ++ p.text ++ " points to an ancestor " ++ q.text

end WalkFault

/-- A directory that is open on the way down: the path under which the walk
entered it, and its place. -/
structure OpenDirectory where
  path : Path
  place : List String
deriving Repr, Inhabited

namespace FileTree

def unopened (t : FileTree) (above : List OpenDirectory) : Nat :=
  t.top.directoryPlaces.countP fun place => !above.any (·.place == place)

theorem closed_of_closed_cons {above : List OpenDirectory} {d : OpenDirectory}
    {place : List String} (h : (!(d :: above).any (·.place == place)) = true) :
    (!above.any (·.place == place)) = true := by
  simp only [List.any_cons, Bool.not_or, Bool.and_eq_true] at h
  exact h.2

theorem unopened_cons_le (t : FileTree) (above : List OpenDirectory) (d : OpenDirectory) :
    t.unopened (d :: above) ≤ t.unopened above :=
  List.countP_mono_left fun _ _ => closed_of_closed_cons

theorem unopened_cons_lt {t : FileTree} {above : List OpenDirectory} {d : OpenDirectory}
    {entries : List (String × Entry)} (hat : t.top.at? d.place = some (.directory entries))
    (hclosed : above.any (·.place == d.place) = false) :
    t.unopened (d :: above) < t.unopened above := by
  refine Counting.countP_lt (fun _ => closed_of_closed_cons)
    (Entry.mem_directoryPlaces_of_at? hat) ?_ ?_
  · simp
  · simp [hclosed]

/-- The place and the entry to which a path leads, with the proof that the
entry is there. -/
def follow (t : FileTree) (p : Path) :
    Except OsError { found : List String × Entry // t.top.at? found.1 = some found.2 } :=
  match t.resolve true p with
  | .error e => .error e
  | .ok place =>
      match h : t.top.at? place with
      | some e => .ok ⟨(place, e), h⟩
      | none => .error .notFound

/-- Everything at and below an entry that is no directory, with the faults on
the way.  `path` and `place` are those of the entry and `above` lists the open
directories, the nearest first.  Nothing at or below a path that satisfies
`skip` is listed. -/
def walkEntry (t : FileTree) (skip : Path -> Bool) (above : List OpenDirectory)
    (path : Path) (place : List String) : (entry : Entry) -> List (Except WalkFault Path)
  | .file _ => if skip path then [] else [.ok path]
  | .directory entries =>
      if skip path then []
      else
        (Entry.listing entries).attach.flatMap fun ⟨(name, inner), _⟩ =>
          t.walkEntry skip (⟨path, place⟩ :: above) (path.join ⟨name⟩) (place ++ [name]) inner
  | .link _ =>
      match t.follow path with
      | .error e => [.error (.unusable path e)]
      | .ok ⟨(_, .file _), _⟩ => if skip path then [] else [.ok path]
      | .ok ⟨(_, .link _), _⟩ => [.error (.unusable path .tooManyLinks)]
      | .ok ⟨(target, .directory entries), _⟩ =>
          match _hclosed : above.find? (·.place == target) with
          | some ancestor => [.error (.loop path ancestor.path)]
          | none =>
              if skip path then []
              else
                (Entry.listing entries).attach.flatMap fun ⟨(name, inner), _⟩ =>
                  t.walkEntry skip (⟨path, target⟩ :: above) (path.join ⟨name⟩)
                    (target ++ [name]) inner
termination_by entry => (t.unopened above, sizeOf entry)
decreasing_by
  · have hsize := Entry.sizeOf_snd_lt (Entry.mem_of_mem_listing ‹_›)
    have hle := t.unopened_cons_le above ⟨path, place⟩
    rcases Nat.lt_or_eq_of_le hle with hlt | heq
    · exact Prod.Lex.left _ _ hlt
    · rw [heq]
      exact Prod.Lex.right _ hsize
  · apply Prod.Lex.left
    apply unopened_cons_lt ‹_›
    simpa using _hclosed

def walk (t : FileTree) (skip : Path -> Bool) (root : Path) : List (Except WalkFault Path) :=
  match t.entry false root with
  | .error e => [.error (.unusable root e)]
  | .ok (place, e) => t.walkEntry skip [] root place e

end FileTree
end JsxUsage
