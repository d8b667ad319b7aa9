import JsxUsage.Proofs.CatalogPaths

/-!
# Descents

A descent goes down from an entry by names until it ends at a file.  It follows
links, but never into a directory that it has already opened.  A walk lists the
files at the ends of the descents, less those on the way to which something is
skipped.
-/

namespace JsxUsage

namespace Path

/-- The path to which names lead from a path. -/
def below (path : Path) (names : List String) : Path :=
  names.foldl (fun p name => p.join ⟨name⟩) path

@[simp]
theorem below_nil (path : Path) : path.below [] = path :=
  rfl

@[simp]
theorem below_cons (path : Path) (name : String) (names : List String) :
    path.below (name :: names) = (path.join ⟨name⟩).below names :=
  rfl

end Path

namespace FileTree

open Catalog (listed)

/-- From the entry at `path`, which stands at `place`, the names lead down to a
file.  `opened` holds the places of the directories on the way to the entry. -/
inductive Descends (t : FileTree) :
    (opened : List (List String)) -> (path : Path) -> (place : List String) -> Entry ->
      (names : List String) -> Prop where
  | file {opened : List (List String)} {path : Path} {place : List String} {content : Content} :
      Descends t opened path place (.file content) []
  | directory {opened : List (List String)} {path : Path} {place : List String}
      {entries : List (String × Entry)} {name : String} {inner : Entry} {names : List String}
      (member : (name, inner) ∈ entries)
      (down : Descends t (place :: opened) (path.join ⟨name⟩) (place ++ [name]) inner names) :
      Descends t opened path place (.directory entries) (name :: names)
  | linkedFile {opened : List (List String)} {path link : Path} {place target : List String}
      {content : Content} (leads : t.entry true path = .ok (target, .file content)) :
      Descends t opened path place (.link link) []
  | linkedDirectory {opened : List (List String)} {path link : Path} {place target : List String}
      {entries : List (String × Entry)} {name : String} {inner : Entry} {names : List String}
      (leads : t.entry true path = .ok (target, .directory entries)) (closed : target ∉ opened)
      (member : (name, inner) ∈ entries)
      (down : Descends t (target :: opened) (path.join ⟨name⟩) (target ++ [name]) inner names) :
      Descends t opened path place (.link link) (name :: names)

/-- From `root` the names lead down to a file. -/
def Reaches (t : FileTree) (root : Path) (names : List String) : Prop :=
  exists place e, t.entry false root = .ok (place, e) ∧ t.Descends [] root place e names

/-!
# One step of a descent
-/

section Inversion

variable {t : FileTree} {opened : List (List String)} {path link : Path} {place target : List String}
  {names : List String}

/-- A descent through the entries of an open directory, whose place is the first of `opened`. -/
def DescendsInto (t : FileTree) (opened : List (List String)) (path : Path) (place : List String)
    (entries : List (String × Entry)) (names : List String) : Prop :=
  exists name inner rest, names = name :: rest ∧ (name, inner) ∈ entries ∧
    t.Descends (place :: opened) (path.join ⟨name⟩) (place ++ [name]) inner rest

theorem descends_file_iff {content : Content} :
    t.Descends opened path place (.file content) names <-> names = [] := by
  constructor
  · intro h
    cases h
    rfl
  · intro heq
    subst heq
    exact .file

theorem descends_directory_iff {entries : List (String × Entry)} :
    t.Descends opened path place (.directory entries) names <->
      t.DescendsInto opened path place entries names := by
  constructor
  · intro h
    cases h with
    | directory hmember hdown => exact ⟨_, _, _, rfl, hmember, hdown⟩
  · intro h
    rcases h with ⟨name, inner, rest, rfl, hmember, hdown⟩
    exact .directory hmember hdown

theorem descends_link_iff :
    t.Descends opened path place (.link link) names <->
      (names = [] ∧ exists target content, t.entry true path = .ok (target, .file content)) ∨
      exists target entries, t.entry true path = .ok (target, .directory entries) ∧
        target ∉ opened ∧ t.DescendsInto opened path target entries names := by
  constructor
  · intro h
    cases h with
    | linkedFile hleads => exact Or.inl ⟨rfl, _, _, hleads⟩
    | linkedDirectory hleads hclosed hmember hdown =>
        exact Or.inr ⟨_, _, hleads, hclosed, _, _, _, rfl, hmember, hdown⟩
  · intro h
    rcases h with ⟨rfl, target, content, hleads⟩ |
      ⟨target, entries, hleads, hclosed, _, _, _, rfl, hmember, hdown⟩
    · exact .linkedFile hleads
    · exact .linkedDirectory hleads hclosed hmember hdown

end Inversion

/-!
# Names on the way
-/

theorem isName_of_descends {t : FileTree} (htop : t.top.WellFormed)
    {opened : List (List String)} {path : Path} {place : List String} {e : Entry}
    {names : List String} (he : e.WellFormed) (h : t.Descends opened path place e names) :
    forall name, name ∈ names -> Path.IsName name := by
  have hstep : forall {entries : List (String × Entry)} {name : String} {inner : Entry},
      (Entry.directory entries).WellFormed -> (name, inner) ∈ entries ->
        Path.IsName name ∧ inner.WellFormed := by
    intro entries name inner hentries hmember
    cases hentries with
    | directory hnames _ hinner => exact ⟨hnames _ hmember, hinner _ hmember⟩
  induction h with
  | file => exact fun name hname => absurd hname List.not_mem_nil
  | linkedFile hleads => exact fun name hname => absurd hname List.not_mem_nil
  | directory hmember hdown ih =>
      rcases hstep he hmember with ⟨hname, hinner⟩
      exact List.forall_mem_cons.mpr ⟨hname, ih hinner⟩
  | linkedDirectory hleads hclosed hmember hdown ih =>
      rcases hstep (Entry.wellFormed_at? htop (at?_of_entry hleads)) hmember with ⟨hname, hinner⟩
      exact List.forall_mem_cons.mpr ⟨hname, ih hinner⟩

theorem isName_of_reaches {t : FileTree} (htop : t.top.WellFormed) {root : Path}
    {names : List String} (h : t.Reaches root names) :
    forall name, name ∈ names -> Path.IsName name := by
  rcases h with ⟨place, e, hentry, hdescends⟩
  exact isName_of_descends htop (Entry.wellFormed_at? htop (at?_of_entry hentry)) hdescends

theorem text_ne_of_reaches {t : FileTree} {root : Path} {names : List String}
    (h : t.Reaches root names) : root.text ≠ "" := by
  rcases h with ⟨place, e, hentry, _⟩
  intro hempty
  rw [entry_of_text_eq t false hempty] at hentry
  cases hentry

/-!
# What a walk lists
-/

theorem mem_listed_attach {entries : List (String × Entry)}
    {items : { entry // entry ∈ Entry.listing entries } -> List (Except WalkFault Path)} {q : Path} :
    q ∈ listed ((Entry.listing entries).attach.flatMap items) <->
      exists entry, q ∈ listed (items entry) := by
  simp only [listed, List.filterMap_flatMap, List.mem_flatMap, List.mem_attach, true_and]

theorem entry_of_follow {t : FileTree} {path : Path} :
    t.entry true path = (t.follow path).map Subtype.val := by
  unfold entry follow
  cases t.resolve true path with
  | error e => rfl
  | ok place =>
      dsimp only
      split <;> split <;> simp_all [Except.map]

theorem entry_of_followed {t : FileTree} {path : Path} {target : List String × Entry}
    {hat : t.top.at? target.1 = some target.2} (h : t.follow path = .ok ⟨target, hat⟩) :
    t.entry true path = .ok target := by
  rw [entry_of_follow, h]
  rfl

/-- Nothing is skipped on the way from `path` by the names. -/
def Clear (skip : Path -> Bool) (path : Path) (names : List String) : Prop :=
  forall front, front <+: names -> skip (path.below front) = false

theorem clear_nil {skip : Path -> Bool} {path : Path} :
    Clear skip path [] <-> skip path = false := by
  simp [Clear]

theorem clear_cons {skip : Path -> Bool} {path : Path} {name : String} {names : List String} :
    Clear skip path (name :: names) <->
      skip path = false ∧ Clear skip (path.join ⟨name⟩) names := by
  constructor
  · intro h
    refine ⟨h [] List.nil_prefix, ?_⟩
    intro front hfront
    exact h (name :: front) ((List.prefix_cons_inj name).mpr hfront)
  · intro h front hfront
    rcases h with ⟨hpath, h⟩
    rcases List.prefix_cons_iff.mp hfront with rfl | ⟨inner, rfl, hinner⟩
    · exact hpath
    · exact h inner hinner

theorem mem_listed_nil {skip : Path -> Bool} {path : Path} {items : List (Except WalkFault Path)}
    {down : List String -> Prop} {q : Path} (hitems : listed items = [])
    (hnone : forall names, down names -> ¬ Clear skip path names) :
    q ∈ listed items <->
      exists names, down names ∧ q = path.below names ∧ Clear skip path names := by
  rw [hitems]
  constructor
  · intro hq
    cases hq
  · intro h
    rcases h with ⟨names, hdown, _, hclear⟩
    exact absurd hclear (hnone names hdown)

theorem not_clear_of_skip {skip : Path -> Bool} {path : Path} (h : skip path = true)
    (names : List String) : ¬ Clear skip path names := by
  intro hclear
  have hskip := hclear [] List.nil_prefix
  rw [Path.below_nil, h] at hskip
  cases hskip

theorem mem_listed_self {skip : Path -> Bool} {path : Path} {down : List String -> Prop} {q : Path}
    (hskip : ¬ skip path = true) (hdown : forall names, down names <-> names = []) :
    q ∈ listed [.ok path] <->
      exists names, down names ∧ q = path.below names ∧ Clear skip path names := by
  have hlisted : listed [.ok path] = [path] := rfl
  rw [hlisted, List.mem_singleton]
  constructor
  · intro heq
    subst heq
    exact ⟨[], (hdown []).mpr rfl, rfl, clear_nil.mpr (Bool.eq_false_iff.mpr hskip)⟩
  · intro h
    rcases h with ⟨names, hnames, hpath, _⟩
    rw [(hdown names).mp hnames] at hpath
    exact hpath

theorem mem_listed_listing {t : FileTree} {skip : Path -> Bool} {opened : List (List String)}
    {path : Path} {place : List String} {entries : List (String × Entry)}
    {items : { entry // entry ∈ Entry.listing entries } -> List (Except WalkFault Path)}
    {down : List String -> Prop} {q : Path} (hskip : ¬ skip path = true)
    (hdown : forall names, down names <-> t.DescendsInto opened path place entries names)
    (hitems : forall entry, q ∈ listed (items entry) <->
      exists names, t.Descends (place :: opened) (path.join ⟨entry.1.1⟩) (place ++ [entry.1.1])
          entry.1.2 names ∧
        q = (path.join ⟨entry.1.1⟩).below names ∧ Clear skip (path.join ⟨entry.1.1⟩) names) :
    q ∈ listed ((Entry.listing entries).attach.flatMap items) <->
      exists names, down names ∧ q = path.below names ∧ Clear skip path names := by
  rw [mem_listed_attach]
  constructor
  · intro h
    rcases h with ⟨entry, hq⟩
    rcases (hitems entry).mp hq with ⟨names, hnames, hpath, hclear⟩
    refine ⟨entry.1.1 :: names, (hdown _).mpr ?_, hpath,
      clear_cons.mpr ⟨Bool.eq_false_iff.mpr hskip, hclear⟩⟩
    exact ⟨_, _, names, rfl, Entry.mem_of_mem_listing entry.2, hnames⟩
  · intro h
    rcases h with ⟨names, hnames, hpath, hclear⟩
    rcases (hdown names).mp hnames with ⟨name, inner, rest, rfl, hmember, hrest⟩
    refine ⟨⟨(name, inner), List.mem_mergeSort.mpr hmember⟩, (hitems _).mpr ?_⟩
    exact ⟨rest, hrest, hpath, (clear_cons.mp hclear).right⟩

theorem mem_places_of_find? {above : List OpenDirectory} {target : List String}
    {ancestor : OpenDirectory} (h : above.find? (·.place == target) = some ancestor) :
    target ∈ above.map OpenDirectory.place := by
  have hplace := List.find?_some h
  rw [beq_iff_eq] at hplace
  rw [← hplace]
  exact List.mem_map_of_mem (List.mem_of_find?_eq_some h)

/-- A walk from an entry lists the ends of the descents from it on which nothing is skipped. -/
theorem mem_listed_walkEntry (t : FileTree) (skip : Path -> Bool) (above : List OpenDirectory)
    (path : Path) (place : List String) (entry : Entry) (q : Path) :
    q ∈ listed (t.walkEntry skip above path place entry) <->
      exists names, t.Descends (above.map OpenDirectory.place) path place entry names ∧
        q = path.below names ∧ Clear skip path names := by
  fun_induction walkEntry t skip above path place entry with
  | case1 above path place content hskip =>
      exact mem_listed_nil rfl fun names _ => not_clear_of_skip hskip names
  | case2 above path place content hskip =>
      exact mem_listed_self hskip fun names => descends_file_iff
  | case3 above path place entries hskip =>
      exact mem_listed_nil rfl fun names _ => not_clear_of_skip hskip names
  | case4 above path place entries hskip ih =>
      refine mem_listed_listing hskip (fun names => descends_directory_iff) ?_
      intro h
      rcases h with ⟨⟨name, inner⟩, hmember⟩
      exact ih name inner hmember
  | case5 above path place link e hfollow =>
      refine mem_listed_nil rfl ?_
      intro names hnames
      simp [descends_link_iff, entry_of_follow, hfollow, Except.map] at hnames
  | case6 above path place link target content hat hfollow hskip =>
      exact mem_listed_nil rfl fun names _ => not_clear_of_skip hskip names
  | case7 above path place link target content hat hfollow hskip =>
      refine mem_listed_self hskip ?_
      intro names
      simp [descends_link_iff, entry_of_follow, hfollow, Except.map]
  | case8 above path place link target other hat hfollow =>
      refine mem_listed_nil rfl ?_
      intro names hnames
      simp [descends_link_iff, entry_of_follow, hfollow, Except.map] at hnames
  | case9 above path place link target entries hat hfollow ancestor hopen =>
      have hmem := mem_places_of_find? hopen
      refine mem_listed_nil rfl ?_
      intro names hnames
      rw [descends_link_iff, entry_of_follow, hfollow] at hnames
      rcases hnames with ⟨_, _, _, ⟨⟩⟩ | ⟨_, _, ⟨⟩, hclosed, _⟩
      exact absurd hmem hclosed
  | case10 above path place link target entries hat hfollow hclosed hskip =>
      exact mem_listed_nil rfl fun names _ => not_clear_of_skip hskip names
  | case11 above path place link target entries hat hfollow hclosed hskip ih =>
      have hmem : target ∉ above.map OpenDirectory.place := by
        simpa using hclosed
      have hdown : forall names,
          t.Descends (above.map OpenDirectory.place) path place (.link link) names <->
            t.DescendsInto (above.map OpenDirectory.place) path target entries names := by
        intro names
        rw [descends_link_iff, entry_of_follow, hfollow]
        constructor
        · intro h
          rcases h with ⟨_, _, _, ⟨⟩⟩ | ⟨_, _, ⟨⟩, _, hnames⟩
          exact hnames
        · intro hnames
          exact Or.inr ⟨target, entries, rfl, hmem, hnames⟩
      refine mem_listed_listing hskip hdown ?_
      intro h
      rcases h with ⟨⟨name, inner⟩, hmember⟩
      exact ih name inner

/-- A walk lists the files that are reached, less those on the way to which something is
skipped. -/
theorem mem_listed_walk {t : FileTree} {skip : Path -> Bool} {root q : Path} :
    q ∈ listed (t.walk skip root) <->
      exists names, t.Reaches root names ∧ q = root.below names ∧ Clear skip root names := by
  unfold walk
  cases hentry : t.entry false root with
  | error e =>
      refine mem_listed_nil rfl ?_
      intro names h
      rcases h with ⟨place, found, hfound, _⟩
      rw [hentry] at hfound
      cases hfound
  | ok found =>
      have hreaches : forall names,
          t.Reaches root names <-> t.Descends [] root found.1 found.2 names := by
        intro names
        constructor
        · intro h
          rcases h with ⟨place, e, hfound, hdescends⟩
          rw [hentry] at hfound
          cases hfound
          exact hdescends
        · intro hdescends
          exact ⟨found.1, found.2, hentry, hdescends⟩
      simp only [hreaches]
      exact mem_listed_walkEntry t skip [] root found.1 found.2 q

end FileTree
end JsxUsage
