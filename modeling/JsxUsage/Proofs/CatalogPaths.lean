import JsxUsage.Catalog
import JsxUsage.Proofs.PathOrder
import JsxUsage.Proofs.PathParts

/-!
# The paths of a catalog

A walk gives each file the path of the names that led to it, links by their own
names.  As the entries of a directory have different names, no path is listed
twice, and the files of a catalog are strictly increasing.
-/

namespace JsxUsage
namespace Entry

/-- In every directory the entries have different names, and none that a path
would read as something else. -/
inductive WellFormed : Entry -> Prop where
  | file (content : Content) : WellFormed (.file content)
  | link (target : Path) : WellFormed (.link target)
  | directory {entries : List (String × Entry)}
      (names : forall entry, entry ∈ entries -> Path.IsName entry.1)
      (distinct : (entries.map Prod.fst).Nodup)
      (inner : forall entry, entry ∈ entries -> WellFormed entry.2) :
      WellFormed (.directory entries)

theorem wellFormed_directory_iff {entries : List (String × Entry)} :
    (directory entries).WellFormed <->
      (forall entry, entry ∈ entries -> Path.IsName entry.1) ∧ (entries.map Prod.fst).Nodup ∧
        forall entry, entry ∈ entries -> entry.2.WellFormed := by
  constructor
  · intro h
    rcases h with _ | _ | ⟨names, distinct, inner⟩
    exact ⟨names, distinct, inner⟩
  · intro h
    rcases h with ⟨names, distinct, inner⟩
    exact .directory names distinct inner

theorem wellFormed_file (content : Content) : (file content).WellFormed :=
  .file content

theorem listing_of_pairwise {entries : List (String × Entry)}
    (h : entries.Pairwise fun a b => decide (a.1 ≤ b.1) = true) : listing entries = entries :=
  List.mergeSort_of_pairwise h

theorem mem_of_named? {name : String} {e : Entry} {entries : List (String × Entry)}
    (h : named? name entries = some e) : (name, e) ∈ entries := by
  induction entries with
  | nil => cases h
  | cons first rest ih =>
      rw [named?] at h
      split_ifs at h with hsame
      · cases h
        rw [beq_iff_eq] at hsame
        rw [← hsame]
        exact List.mem_cons_self
      · exact List.mem_cons_of_mem first (ih h)

theorem wellFormed_at? {e below : Entry} {place : List String} (h : e.WellFormed)
    (hat : e.at? place = some below) : below.WellFormed := by
  induction place generalizing e with
  | nil =>
      rw [at?] at hat
      cases hat
      exact h
  | cons name rest ih =>
      cases h with
      | file content => cases hat
      | link target => cases hat
      | directory names distinct inner =>
          rw [at?] at hat
          split at hat
          · next next hnext => exact ih (inner _ (mem_of_named? hnext)) hat
          · cases hat

end Entry

namespace FileTree

/-- A path of one name from the top leads to the entry of that name. -/
theorem resolve_of_pieces {t : FileTree} {p : Path} {name : String} {e : Entry}
    (hpieces : (Path.pieces p.text.toList).map String.ofList = ["", name]) (hname : Path.IsName name)
    (hat : t.top.at? [name] = some e) (hlink : forall target, e ≠ .link target) (follow : Bool) :
    t.resolve follow p = .ok [name] := by
  have htext : p.text.toList = '/' :: name.toList := by
    have hback : Path.pieces p.text.toList = [[], name.toList] := by
      simpa [Function.comp_def] using congrArg (List.map String.toList) hpieces
    have hjoined := Path.intercalate_pieces p.text.toList
    rw [hback] at hjoined
    simpa using hjoined.symm
  have hnonempty : p.text ≠ "" := by
    intro hempty
    rw [hempty] at htext
    cases htext
  have habsolute : p.isAbsolute = true := Path.isAbsolute_iff.mpr ⟨_, htext⟩
  have hdirectory : t.top.isDirectory = true := by
    cases htop : t.top with
    | directory entries => rfl
    | file content => simp [htop, Entry.at?] at hat
    | link target => simp [htop, Entry.at?] at hat
  have htop : t.top.at? [] = some t.top := by
    cases t.top <;> rfl
  rw [resolve, if_neg (by simpa using hnonempty), hpieces]
  simp only [habsolute, if_true]
  rw [locate, htop]
  simp only [hdirectory]
  rw [locate, htop]
  cases e with
  | link target => exact absurd rfl (hlink target)
  | file content => simp [hdirectory, hname.nonempty, hname.notHere, hname.notUp, hat, locate]
  | directory entries => simp [hdirectory, hname.nonempty, hname.notHere, hname.notUp, hat, locate]

open Catalog (listed)

/-!
# Walks
-/

/-- What is listed are different paths at or below a path, absolute if the path is. -/
structure Spreads (path : Path) (items : List (Except WalkFault Path)) : Prop where
  absolute : forall q, q ∈ listed items -> q.isAbsolute = path.isAbsolute
  below : forall q, q ∈ listed items -> path.parts <+: q.parts
  distinct : (listed items).Pairwise fun p q => (p == q) = false

theorem spreads_of_listed_nil (path : Path) {items : List (Except WalkFault Path)}
    (h : listed items = []) : Spreads path items :=
  ⟨by simp [h], by simp [h], by simp [h]⟩

theorem spreads_self (path : Path) : Spreads path [.ok path] := by
  have hlisted : listed [.ok path] = [path] := rfl
  exact ⟨by simp [hlisted], by simp [hlisted], by simp [hlisted]⟩

theorem ne_of_names {path p q : Path} {a b : String} (hab : a ≠ b)
    (hp : path.parts ++ [.name a] <+: p.parts) (hq : path.parts ++ [.name b] <+: q.parts) :
    (p == q) = false := by
  rw [Bool.eq_false_iff]
  intro hsame
  rw [Path.beq_iff_parts.mp hsame] at hp
  have heq := (List.prefix_of_prefix_length_le hp hq (by simp)).eq_of_length (by simp)
  simp only [List.append_cancel_left_eq, List.cons.injEq, Part.name.injEq] at heq
  exact hab heq.1

theorem pairwise_listing {entries : List (String × Entry)} (h : (entries.map Prod.fst).Nodup) :
    (Entry.listing entries).attach.Pairwise fun a b => a.1.1 ≠ b.1.1 := by
  have hnames : ((Entry.listing entries).map Prod.fst).Nodup :=
    ((List.mergeSort_perm entries _).map Prod.fst).nodup_iff.mpr h
  rw [← List.attach_map_subtype_val (Entry.listing entries), List.map_map] at hnames
  exact List.pairwise_map.mp hnames

theorem spreads_listing {path : Path} (hpath : path.text ≠ "")
    {entries : List (String × Entry)} (h : (Entry.directory entries).WellFormed)
    {items : { entry // entry ∈ Entry.listing entries } -> List (Except WalkFault Path)}
    (hitems : forall entry, (path.join ⟨entry.1.1⟩).text ≠ "" -> entry.1.2.WellFormed ->
      Spreads (path.join ⟨entry.1.1⟩) (items entry)) :
    Spreads path ((Entry.listing entries).attach.flatMap items) := by
  cases h with
  | directory names distinct inner =>
      have hnames : forall entry : { entry // entry ∈ Entry.listing entries },
          Path.IsName entry.1.1 := fun entry => names entry.1 (Entry.mem_of_mem_listing entry.2)
      have hspreads : forall entry, Spreads (path.join ⟨entry.1.1⟩) (items entry) := fun entry =>
        hitems entry (Path.text_join_ne hpath (Path.isAbsolute_of_isName (hnames entry)))
          (inner entry.1 (Entry.mem_of_mem_listing entry.2))
      have hlisted : listed ((Entry.listing entries).attach.flatMap items) =
          (Entry.listing entries).attach.flatMap fun entry => listed (items entry) := by
        simp only [listed, List.filterMap_flatMap]
      have hparts : forall entry q, q ∈ listed (items entry) ->
          path.parts ++ [.name entry.1.1] <+: q.parts := by
        intro entry q hq
        rw [← Path.parts_join path (hnames entry)]
        exact (hspreads entry).below q hq
      constructor
      · intro q hq
        rw [hlisted] at hq
        rcases List.mem_flatMap.mp hq with ⟨entry, -, hq⟩
        rw [(hspreads entry).absolute q hq,
          Path.isAbsolute_join hpath (Path.isAbsolute_of_isName (hnames entry))]
      · intro q hq
        rw [hlisted] at hq
        rcases List.mem_flatMap.mp hq with ⟨entry, -, hq⟩
        exact (List.prefix_append _ _).trans (hparts entry q hq)
      · rw [hlisted, List.pairwise_flatMap]
        refine ⟨fun entry _ => (hspreads entry).distinct, (pairwise_listing distinct).imp ?_⟩
        intro a b hab p hp q hq
        exact ne_of_names hab (hparts a p hp) (hparts b q hq)

theorem walkEntry_file (t : FileTree) (skip : Path -> Bool) (above : List OpenDirectory)
    (path : Path) (place : List String) (content : Content) :
    t.walkEntry skip above path place (.file content) = if skip path then [] else [.ok path] := by
  rw [walkEntry]

theorem walkEntry_directory (t : FileTree) (skip : Path -> Bool) (above : List OpenDirectory)
    (path : Path) (place : List String) (entries : List (String × Entry)) :
    t.walkEntry skip above path place (.directory entries) =
      if skip path then []
      else (Entry.listing entries).flatMap fun entry =>
        t.walkEntry skip (⟨path, place⟩ :: above) (path.join ⟨entry.1⟩) (place ++ [entry.1])
          entry.2 := by
  have hattach : forall f : String × Entry -> List (Except WalkFault Path),
      ((Entry.listing entries).attach.flatMap fun entry => f entry.1) =
        (Entry.listing entries).flatMap f := by
    intro f
    rw [← List.flatMap_map Subtype.val f, List.attach_map_subtype_val]
  rw [walkEntry]
  congr 1
  exact hattach fun entry => t.walkEntry skip (⟨path, place⟩ :: above) (path.join ⟨entry.1⟩)
    (place ++ [entry.1]) entry.2

theorem spreads_walkEntry {t : FileTree} (htop : t.top.WellFormed) (skip : Path -> Bool)
    (above : List OpenDirectory) {path : Path} (hpath : path.text ≠ "")
    (place : List String) {entry : Entry} (hentry : entry.WellFormed) :
    Spreads path (t.walkEntry skip above path place entry) := by
  fun_induction walkEntry t skip above path place entry with
  | case1 => exact spreads_of_listed_nil _ rfl
  | case2 => exact spreads_self _
  | case3 => exact spreads_of_listed_nil _ rfl
  | case4 above path place entries hskip ih =>
      refine spreads_listing hpath hentry ?_
      intro h
      rcases h with ⟨⟨name, inner⟩, hmem⟩
      exact ih name inner hmem
  | case5 => exact spreads_of_listed_nil _ rfl
  | case6 => exact spreads_of_listed_nil _ rfl
  | case7 => exact spreads_self _
  | case8 => exact spreads_of_listed_nil _ rfl
  | case9 => exact spreads_of_listed_nil _ rfl
  | case10 => exact spreads_of_listed_nil _ rfl
  | case11 above path place link target entries hat hfollow hclosed hskip ih =>
      refine spreads_listing hpath (Entry.wellFormed_at? htop hat) ?_
      intro h
      rcases h with ⟨⟨name, inner⟩, hmem⟩
      exact ih name inner

theorem at?_of_entry {t : FileTree} {follow : Bool} {p : Path} {place : List String} {e : Entry}
    (h : t.entry follow p = .ok (place, e)) : t.top.at? place = some e := by
  unfold entry at h
  split at h
  · cases h
  · next found hresolve =>
      split at h
      · next below hat =>
          cases h
          exact hat
      · cases h

theorem entry_of_text_eq (t : FileTree) (follow : Bool) {p : Path} (h : p.text = "") :
    t.entry follow p = .error .notFound := by
  rw [entry, resolve, if_pos (by rw [h]; rfl)]

theorem spreads_walk {t : FileTree} (htop : t.top.WellFormed) (skip : Path -> Bool) (root : Path) :
    Spreads root (t.walk skip root) := by
  by_cases hroot : root.text = ""
  · rw [walk, entry_of_text_eq t false hroot]
    exact spreads_of_listed_nil root rfl
  · unfold walk
    split
    · exact spreads_of_listed_nil root rfl
    · next place e hentry =>
        exact spreads_walkEntry htop skip [] hroot place
          (Entry.wellFormed_at? htop (at?_of_entry hentry))

end FileTree

namespace Catalog

variable {t : FileTree} (htop : t.top.WellFormed) (rule : CatalogRule)
include htop

theorem isAbsolute_of_mem_scan {root : Path} (hroot : root.isAbsolute = true) {p : Path}
    (hp : p ∈ (scan t rule root).files) : p.isAbsolute = true := by
  have hlisted := (List.mem_filter.mp (List.mem_mergeSort.mp hp)).1
  rw [(FileTree.spreads_walk htop _ root).absolute p hlisted, hroot]

theorem increasing_scan (root : Path) :
    (scan t rule root).files.Pairwise fun p q => p.compare q = .lt :=
  Path.increasing_mergeSort id ((FileTree.spreads_walk htop _ root).distinct.filter rule.hasExtension)

end Catalog
end JsxUsage
