import JsxUsage.Proofs.PathParts
import JsxUsage.Resolution

/-!
# Where relative imports lead

A relative module can be written in many ways.  The place to which it leads is
told by its segments alone, walked one by one from the directory of the importing
file.  This module proves that the resolver looks at this place, and that two
modules that lead to the same place mean the same component, unless one of them is
written as double dots and nothing else: that one is not taken as relative.
-/

namespace JsxUsage

/-!
# Walking segments
-/

namespace Path

/-- The texts between the slashes. -/
def segments (text : String) : List String :=
  (pieces text.toList).map String.ofList

/-- Walk one segment: nothing and a dot stay, double dots go up unless the place is the top. -/
def advance (place : List String) (segment : String) : List String :=
  if segment = "" ∨ segment = "." then place
  else if segment = ".." then place.dropLast
  else place ++ [segment]

/-- The place to which a text leads from a directory. -/
def lexicalPlace (directory : Path) (text : String) : List String :=
  (segments directory.text ++ segments text).foldl advance []

/-- The parts of the path at a place, below the root or below nothing. -/
def partsAt (absolute : Bool) (place : List String) : List Part :=
  (if absolute then [.root] else []) ++ place.map .name

def normalStep (done : List Part) (part : Part) : List Part :=
  match part with
  | .here => done
  | .up => match done.getLast? with
      | some (.name _) => done.dropLast
      | _ => done
  | _ => done ++ [part]

theorem normalParts_eq (ps : List Part) : normalParts ps = ps.foldl normalStep [] :=
  rfl

theorem foldl_normalStep_filter (ps done : List Part) :
    (ps.filter (· != .here)).foldl normalStep done = ps.foldl normalStep done := by
  induction ps generalizing done with
  | nil => rfl
  | cons part ps ih =>
      cases part with
      | here => exact ih done
      | root => exact ih _
      | up => exact ih _
      | name text => exact ih _

theorem normalStep_up (absolute : Bool) (place : List String) :
    normalStep (partsAt absolute place) .up = partsAt absolute place.dropLast := by
  induction place using List.reverseRecOn with
  | nil => cases absolute <;> rfl
  | append_singleton place name _ =>
      have hparts : partsAt absolute (place ++ [name]) = partsAt absolute place ++ [.name name] := by
        simp [partsAt]
      rw [hparts, List.dropLast_concat, normalStep, List.getLast?_concat]
      exact List.dropLast_concat

theorem ofList_ne {piece : List Char} {text : String} (h : piece ≠ text.toList) :
    String.ofList piece ≠ text := by
  intro heq
  apply h
  rw [← heq, String.toList_ofList]

theorem foldl_partOf (absolute : Bool) (place : List String) (piece : List Char) :
    (partOf false piece).toList.foldl normalStep (partsAt absolute place) =
      partsAt absolute (advance place (String.ofList piece)) := by
  by_cases hempty : piece = "".toList
  · subst hempty
    simp [partOf, advance]
  · by_cases hdot : piece = ".".toList
    · subst hdot
      simp [partOf, advance]
    · by_cases hup : piece = "..".toList
      · subst hup
        simpa [partOf, advance] using normalStep_up absolute place
      · have hpart : partOf false piece = some (.name (String.ofList piece)) := by
          rw [partOf, if_neg (by simpa using hempty), if_neg (by simpa using hdot),
            if_neg (by simpa using hup)]
        rw [hpart, advance, if_neg (not_or.mpr ⟨ofList_ne hempty, ofList_ne hdot⟩),
          if_neg (ofList_ne hup)]
        simp [normalStep, partsAt]

theorem foldl_pieces (absolute : Bool) (place : List String) (ps : List (List Char)) :
    (ps.filterMap (partOf false)).foldl normalStep (partsAt absolute place) =
      partsAt absolute ((ps.map String.ofList).foldl advance place) := by
  induction ps generalizing place with
  | nil => rfl
  | cons piece others ih =>
      have hsplit : (piece :: others).filterMap (partOf false) =
          (partOf false piece).toList ++ others.filterMap (partOf false) := by
        rw [List.filterMap_cons]
        cases partOf false piece <;> rfl
      rw [hsplit, List.foldl_append, foldl_partOf, ih]
      rfl

/-- Without the dot at their start, the parts of a path are those of its pieces. -/
theorem filter_here_parts (p : Path) :
    p.parts.filter (· != .here) =
      partsAt p.isAbsolute [] ++ (pieces p.text.toList).filterMap (partOf false) := by
  cases habsolute : p.isAbsolute with
  | false =>
      rw [filterMap_pieces_relative habsolute]
      rfl
  | true =>
      rw [parts_eq, habsolute, Bool.not_true, partsOf_false, List.filter_append,
        filter_here_filterMap]
      rfl

theorem filter_here_join (p : Path) {q : Path} (hq : q.isAbsolute = false) :
    (p.join q).parts.filter (· != .here) =
      p.parts.filter (· != .here) ++ q.parts.filter (· != .here) := by
  by_cases hp : p.text = ""
  · rw [join_of_text_eq hp, parts_eq_nil_iff.mpr hp]
    rfl
  · rw [parts_join_relative hp hq, List.filter_append, List.filter_filter]
    simp

theorem normalParts_join (directory : Path) {text : String}
    (htext : (Path.mk text).isAbsolute = false) :
    normalParts (directory.join ⟨text⟩).parts =
      partsAt directory.isAbsolute (directory.lexicalPlace text) := by
  have htop : (partsAt directory.isAbsolute []).foldl normalStep [] =
      partsAt directory.isAbsolute [] := by
    cases directory.isAbsolute <;> rfl
  rw [normalParts_eq, ← foldl_normalStep_filter, filter_here_join directory htext,
    filter_here_parts, ← filterMap_pieces_relative htext, List.foldl_append, List.foldl_append,
    htop, foldl_pieces, foldl_pieces, ← List.foldl_append]
  rfl

/-!
# Dotted modules
-/

theorem head_pieces_iff {cs name : List Char} (hname : '/' ∉ name) :
    (pieces cs).head? = some name <-> cs = name ∨ name ++ ['/'] <+: cs := by
  have halone : pieces name = [name] := by
    rw [pieces, List.splitOn_eq_singleton hname]
  constructor
  · intro hhead
    rcases List.head?_eq_some_iff.mp hhead with ⟨others, hothers⟩
    have hcs := intercalate_pieces cs
    rw [hothers] at hcs
    cases others with
    | nil => exact Or.inl (by simpa using hcs.symm)
    | cons piece others =>
        rw [List.intercalate_cons_cons] at hcs
        exact Or.inr ⟨_, hcs⟩
  · intro h
    rcases h with rfl | ⟨rest, rfl⟩
    · rw [halone]
      rfl
    · rw [List.append_assoc, List.singleton_append, pieces_append, halone]
      rfl

theorem head_segments_iff {text name : String} (hname : '/' ∉ name.toList) :
    (segments text).head? = some name <->
      text = name ∨ name.toList ++ ['/'] <+: text.toList := by
  rw [segments, List.head?_map, Option.map_eq_some_iff, ← String.toList_inj,
    ← head_pieces_iff hname]
  constructor
  · intro h
    rcases h with ⟨piece, hpiece, rfl⟩
    rwa [String.toList_ofList]
  · intro hhead
    exact ⟨name.toList, hhead, String.ofList_toList⟩

/-- The first segment is a dot or double dots. -/
def Dotted (text : String) : Prop :=
  (segments text).head? = some "." ∨ (segments text).head? = some ".."

instance (text : String) : Decidable (Dotted text) :=
  inferInstanceAs (Decidable (_ ∨ _))

theorem isAbsolute_of_dotted {text : String} (h : Dotted text) :
    (Path.mk text).isAbsolute = false := by
  rw [← Bool.not_eq_true, isAbsolute_iff]
  intro hslash
  rcases hslash with ⟨rest, hrest⟩
  have hhead : (segments text).head? = some "" := by
    rw [segments, hrest]
    rfl
  rw [Dotted, hhead] at h
  simp at h

end Path

namespace ImportBinding

theorem isRelative_iff (b : ImportBinding) :
    b.isRelative = true <-> Path.Dotted b.source ∧ b.source ≠ ".." := by
  have hup : "..".toList ++ ['/'] <+: b.source.toList -> b.source ≠ ".." := by
    intro h hsource
    rcases h with ⟨rest, hrest⟩
    rw [hsource] at hrest
    cases hrest
  have hdot : "." ≠ ".." := by decide
  have hdotSlash : ".".toList ++ ['/'] <+: b.source.toList -> b.source ≠ ".." := by
    intro h hsource
    rcases h with ⟨rest, hrest⟩
    rw [hsource] at hrest
    cases hrest
  rw [Path.Dotted, Path.head_segments_iff (by decide), Path.head_segments_iff (by decide),
    isRelative, Bool.or_eq_true, Bool.or_eq_true, List.isPrefixOf_iff_prefix,
    List.isPrefixOf_iff_prefix, beq_iff_eq]
  constructor
  · intro h
    rcases h with (hslash | hslash) | hself
    · exact ⟨Or.inl (Or.inr hslash), hdotSlash hslash⟩
    · exact ⟨Or.inr (Or.inr hslash), hup hslash⟩
    · exact ⟨Or.inl (Or.inl hself), hself.symm ▸ hdot⟩
  · intro h
    rcases h with ⟨(hself | hslash) | (hself | hslash), hne⟩
    · exact Or.inr hself
    · exact Or.inl (Or.inl hslash)
    · exact absurd hself hne
    · exact Or.inl (Or.inr hslash)

end ImportBinding

/-!
# Resolution
-/

namespace Resolver

open JsxUsage.Path (Dotted)

/-- The directory from which the imports of a file lead. -/
def directoryOf (importer : Path) : Path :=
  importer.parent?.getD ⟨""⟩

theorem target_eq (importer : Path) {source : String}
    (hsource : (Path.mk source).isAbsolute = false) :
    target importer source = Path.ofParts (Path.partsAt (directoryOf importer).isAbsolute
      ((directoryOf importer).lexicalPlace source)) := by
  rw [← Path.normalParts_join _ hsource]
  rfl

theorem imported_up (r : Resolver) (importer : Path) (b : ImportBinding) :
    r.imported importer { b with source := ".." } = none := by
  rw [imported, if_neg]
  rw [Bool.and_eq_true, ImportBinding.isRelative_iff]
  intro h
  rcases h with ⟨⟨_, hne⟩, _⟩
  exact hne rfl

theorem resolveBinding_up (r : Resolver) (importer : Path) (b : ImportBinding) :
    r.resolveBinding importer { b with source := ".." } =
      (r.registry.lookup b.lookupName).map Definition.id := by
  rw [resolveBinding, imported_up]
  rfl

theorem lexicalPlace_up (directory : Path) :
    directory.lexicalPlace "../" = directory.lexicalPlace ".." := by
  have hslash : Path.segments "../" = Path.segments ".." ++ [""] := by decide +kernel
  rw [Path.lexicalPlace, Path.lexicalPlace, hslash, ← List.append_assoc, List.foldl_append]
  rfl

section Spelling

variable (r : Resolver) {importer : Path} (b : ImportBinding) {s u : String}
  (hs : Dotted s) (hu : Dotted u)
  (hplace : (directoryOf importer).lexicalPlace s = (directoryOf importer).lexicalPlace u)
include hs hu hplace

theorem resolveBinding_eq_of_place (hsUp : s ≠ "..") (huUp : u ≠ "..") :
    r.resolveBinding importer { b with source := s } =
      r.resolveBinding importer { b with source := u } := by
  have htarget : target importer s = target importer u := by
    rw [target_eq importer (Path.isAbsolute_of_dotted hs),
      target_eq importer (Path.isAbsolute_of_dotted hu), hplace]
  have himported : r.imported importer { b with source := s } =
      r.imported importer { b with source := u } := by
    have hsRelative := (ImportBinding.isRelative_iff { b with source := s }).mpr ⟨hs, hsUp⟩
    have huRelative := (ImportBinding.isRelative_iff { b with source := u }).mpr ⟨hu, huUp⟩
    rw [imported, imported, hsRelative, huRelative, htarget]
    rfl
  rw [resolveBinding, resolveBinding, himported]
  rfl

/-- Two dotted modules that lead to the same place mean the same component, unless exactly
one of them is written as double dots alone and the place has a component of its own. -/
theorem same_place_same_component_iff :
    r.resolveBinding importer { b with source := s } =
        r.resolveBinding importer { b with source := u } <->
      (s = ".." <-> u = "..") ∨
        r.resolveBinding importer { b with source := "../" } =
          (r.registry.lookup b.lookupName).map Definition.id := by
  have hslash : Dotted "../" := by decide +kernel
  have hslashUp : "../" ≠ ".." := by decide
  by_cases hsUp : s = ".."
  · by_cases huUp : u = ".."
    · simp [hsUp, huUp]
    · -- Here `s` means the owner of the name, and `u` what double dots with a slash mean.
      subst hsUp
      rw [← lexicalPlace_up] at hplace
      rw [resolveBinding_up, ← resolveBinding_eq_of_place r b hslash hu hplace hslashUp huUp]
      simp [huUp, eq_comm]
  · by_cases huUp : u = ".."
    · subst huUp
      rw [← lexicalPlace_up] at hplace
      rw [resolveBinding_up, resolveBinding_eq_of_place r b hs hslash hplace hsUp hslashUp]
      simp [hsUp]
    · simp [resolveBinding_eq_of_place r b hs hu hplace hsUp huUp, hsUp, huUp]

end Spelling

/-- Two files that define a card, the second of which owns the name. -/
def rivalCards : Resolver where
  registry := Registry.ofDefinitions [⟨⟨⟨"/app/src/index.jsx"⟩, "Card"⟩, .arrowFunction, 1⟩,
    ⟨⟨⟨"/app/z/Card.jsx"⟩, "Card"⟩, .arrowFunction, 1⟩]
  files := [⟨"/app/src/app/App.jsx"⟩, ⟨"/app/src/index.jsx"⟩, ⟨"/app/z/Card.jsx"⟩]
  extensions := ["js", "jsx"]
  scope := .declaration

theorem same_place_same_component_iff_rivalCards :
    Dotted "../" ∧ Dotted "./..//../src/app/.." ∧
      (directoryOf ⟨"/app/src/app/App.jsx"⟩).lexicalPlace "../" =
        (directoryOf ⟨"/app/src/app/App.jsx"⟩).lexicalPlace "./..//../src/app/.." ∧
      rivalCards.resolveBinding ⟨"/app/src/app/App.jsx"⟩ ⟨"Card", .default, "../", 1⟩ =
        rivalCards.resolveBinding ⟨"/app/src/app/App.jsx"⟩
          ⟨"Card", .default, "./..//../src/app/..", 1⟩ ∧
      (rivalCards.resolveBinding ⟨"/app/src/app/App.jsx"⟩ ⟨"Card", .default, "../", 1⟩).map
        (fun id => id.file.text) = some "/app/src/index.jsx" :=
  ⟨by decide +kernel, by decide +kernel, by decide +kernel,
    (same_place_same_component_iff rivalCards ⟨"Card", .default, "", 1⟩ (by decide +kernel)
      (by decide +kernel) (by decide +kernel)).mpr (Or.inl (by decide)), by decide +kernel⟩

/-- Double dots alone are not taken as relative, and mean the owner of the name. -/
theorem bare_up_misses_target :
    Dotted ".." ∧ Dotted "../" ∧
      (directoryOf ⟨"/app/src/app/App.jsx"⟩).lexicalPlace ".." =
        (directoryOf ⟨"/app/src/app/App.jsx"⟩).lexicalPlace "../" ∧
      (rivalCards.resolveBinding ⟨"/app/src/app/App.jsx"⟩ ⟨"Card", .default, "..", 1⟩).map
        (fun id => id.file.text) = some "/app/z/Card.jsx" ∧
      (rivalCards.resolveBinding ⟨"/app/src/app/App.jsx"⟩ ⟨"Card", .default, "../", 1⟩).map
        (fun id => id.file.text) = some "/app/src/index.jsx" := by
  refine ⟨by decide +kernel, by decide +kernel, by decide +kernel, ?_, ?_⟩ <;> decide +kernel

end Resolver
end JsxUsage
