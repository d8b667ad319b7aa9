import JsxUsage.Proofs.Descents
import JsxUsage.Proofs.PathLookups
import Mathlib.Data.Set.Finite.Lattice

/-!
# Arrivals

From a root one comes through entries of directories to paths, by links too, except
by those that lead back to a directory on the way.  This module proves that there are
finitely many such ways, although links lead in circles, and that a descent reaches
exactly the files at their ends.
-/

namespace JsxUsage

namespace Path

theorem below_concat (path : Path) (names : List String) (name : String) :
    path.below (names ++ [name]) = (path.below names).join ⟨name⟩ := by
  rw [below, List.foldl_append]
  rfl

end Path

namespace FileTree

/-!
# Paths that a walk comes to
-/

/-- The path by the names is no link, or a link to a place that no path on the way leads to. -/
def OpensAnew (t : FileTree) (root : Path) (names place : List String) : Prop :=
  forall stands target, t.entry false (root.below names) = .ok (stands, .link target) ->
    forall front, front <+: names -> front ≠ names ->
      forall e, t.entry true (root.below front) ≠ .ok (place, e)

/-- From `root` one comes by the names through entries of directories.  Links are
followed, except those to directories that are already on the way. -/
inductive ComesTo (t : FileTree) (root : Path) : List String -> Prop where
  | root {found : List String × Entry} : t.entry false root = .ok found -> ComesTo t root []
  | into {names place : List String} {entries : List (String × Entry)} {name : String}
      {inner : Entry} : ComesTo t root names ->
      t.entry true (root.below names) = .ok (place, .directory entries) ->
      t.OpensAnew root names place -> (name, inner) ∈ entries -> ComesTo t root (names ++ [name])

/-- There is a file at the end of a path. -/
def HoldsFile (t : FileTree) (p : Path) : Prop :=
  exists place content, t.entry true p = .ok (place, .file content)

/-- There is a directory at the end of a path. -/
def HoldsDirectory (t : FileTree) (p : Path) : Prop :=
  exists place entries, t.entry true p = .ok (place, .directory entries)

theorem holdsFile_iff {t : FileTree} {p : Path} :
    t.HoldsFile p <-> t.exists? p = true ∧ ¬ t.HoldsDirectory p := by
  unfold HoldsFile HoldsDirectory exists?
  cases hentry : t.entry true p with
  | error e => simp
  | ok found =>
      rcases found with ⟨place, e⟩
      cases e with
      | file content => simp
      | directory entries => simp
      | link target => exact absurd rfl (entry_plain hentry target)

theorem comesTo_of_isPrefix {t : FileTree} {root : Path} {names front : List String}
    (h : t.ComesTo root names) (hfront : front <+: names) : t.ComesTo root front := by
  induction h generalizing front with
  | root hroot =>
      rw [List.prefix_nil.mp hfront]
      exact .root hroot
  | into hnames hdirectory hanew hmember ih =>
      rcases List.prefix_concat_iff.mp hfront with rfl | hfront
      · exact .into hnames hdirectory hanew hmember
      · exact ih hfront

theorem into_of_comesTo {t : FileTree} {root : Path} {before names : List String} {name : String}
    (h : t.ComesTo root (before ++ name :: names)) :
    exists place entries inner,
      t.entry true (root.below before) = .ok (place, .directory entries) ∧
        t.OpensAnew root before place ∧ (name, inner) ∈ entries := by
  rw [List.append_cons] at h
  have hfront := comesTo_of_isPrefix h (List.prefix_append _ _)
  generalize hlonger : before ++ [name] = longer at hfront
  cases hfront with
  | root _ => simp at hlonger
  | into _ hdirectory hanew hmember =>
      rcases List.append_inj' hlonger rfl with ⟨rfl, hname⟩
      cases hname
      exact ⟨_, _, _, hdirectory, hanew, hmember⟩

theorem entry_of_comesTo {t : FileTree} {root : Path} {names : List String}
    (h : t.ComesTo root names) : exists found, t.entry false root = .ok found := by
  induction h with
  | root hroot => exact ⟨_, hroot⟩
  | into _ _ _ _ ih => exact ih

/-!
# Descents and the ways that lead to them

A descent starts somewhere on a way from the root.  It knows the entry at its start and
the places of the directories above.
-/

/-- By the names `before` one comes from `root` to `path`, where the entry `e` stands at
`place`.  The paths on the way lead to the places `opened`. -/
structure Stands (t : FileTree) (root : Path) (before : List String) (opened : List (List String))
    (path : Path) (place : List String) (e : Entry) : Prop where
  spelled : path = root.below before
  comes : t.ComesTo root before
  found : t.entry false path = .ok (place, e)
  opened : forall target, target ∈ opened <->
    exists front, front <+: before ∧ front ≠ before ∧
      exists e, t.entry true (root.below front) = .ok (target, e)

section Stands

variable {t : FileTree} {root path : Path} {before place target : List String}
variable {opened : List (List String)} {e : Entry}

theorem stands_enter (htop : t.top.WellFormed) (h : t.Stands root before opened path place e)
    {entries : List (String × Entry)}
    (hdirectory : t.entry true path = .ok (target, .directory entries))
    (hanew : t.OpensAnew root before target) {name : String} {inner : Entry}
    (hmember : (name, inner) ∈ entries) :
    t.Stands root (before ++ [name]) (target :: opened) (path.join ⟨name⟩) (target ++ [name])
      inner := by
  have hpath := h.spelled
  subst hpath
  constructor
  · rw [Path.below_concat]
  · exact .into h.comes hdirectory hanew hmember
  · exact entry_join htop hdirectory hmember
  · intro other
    rw [List.mem_cons, h.opened]
    constructor
    · intro hopen
      rcases hopen with rfl | ⟨front, hfront, _, hleads⟩
      · exact ⟨before, List.prefix_append _ _, by simp, _, hdirectory⟩
      · refine ⟨front, hfront.trans (List.prefix_append _ _), ?_, hleads⟩
        intro heq
        subst heq
        exact absurd hfront.length_le (by simp)
    · intro hopen
      rcases hopen with ⟨front, hfront, hne, other, hleads⟩
      rcases List.prefix_concat_iff.mp hfront with rfl | hfront
      · exact absurd rfl hne
      · by_cases hsame : front = before
        · subst hsame
          rw [hdirectory] at hleads
          cases hleads
          exact Or.inl rfl
        · exact Or.inr ⟨front, hfront, hsame, other, hleads⟩

theorem opensAnew_of_plain (h : t.Stands root before opened path place e)
    (hplain : forall target, e ≠ .link target) (other : List String) :
    t.OpensAnew root before other := by
  intro stands target hlink
  rw [← h.spelled, h.found] at hlink
  cases hlink
  exact absurd rfl (hplain target)

theorem opensAnew_iff {link : Path} (h : t.Stands root before opened path place (.link link)) :
    t.OpensAnew root before target <-> target ∉ opened := by
  rw [h.opened]
  constructor
  · intro hanew hopen
    rcases hopen with ⟨front, hfront, hne, e, hleads⟩
    refine hanew place link ?_ front hfront hne e hleads
    rw [← h.spelled]
    exact h.found
  · intro hclosed stands other _ front hfront hne e hleads
    exact hclosed ⟨front, hfront, hne, e, hleads⟩

theorem opensAnew_of_closed {above : List OpenDirectory} {link : Path}
    (h : t.Stands root before (above.map OpenDirectory.place) path place (.link link))
    (hclosed : above.find? (·.place == target) = none) : t.OpensAnew root before target := by
  rw [opensAnew_iff h]
  simpa using hclosed

theorem comesTo_of_descends (htop : t.top.WellFormed) {names : List String}
    (h : t.Stands root before opened path place e) (hdown : t.Descends opened path place e names) :
    t.ComesTo root (before ++ names) ∧ t.HoldsFile (root.below (before ++ names)) := by
  induction hdown generalizing before with
  | file =>
      rw [List.append_nil, ← h.spelled]
      exact ⟨h.comes, _, _, entry_followed h.found (by simp)⟩
  | linkedFile hleads =>
      rw [List.append_nil, ← h.spelled]
      exact ⟨h.comes, _, _, hleads⟩
  | directory hmember _ ih =>
      have hdirectory := entry_followed h.found (by simp)
      have hbelow := ih (stands_enter htop h hdirectory (opensAnew_of_plain h (by simp) _) hmember)
      rw [List.append_assoc] at hbelow
      exact hbelow
  | linkedDirectory hleads hclosed hmember _ ih =>
      have hbelow := ih (stands_enter htop h hleads ((opensAnew_iff h).mpr hclosed) hmember)
      rw [List.append_assoc] at hbelow
      exact hbelow

theorem descends_of_comesTo (htop : t.top.WellFormed) {names : List String}
    (h : t.Stands root before opened path place e) (hcomes : t.ComesTo root (before ++ names))
    (hfile : t.HoldsFile (root.below (before ++ names))) :
    t.Descends opened path place e names := by
  induction names generalizing before opened path place e with
  | nil =>
      rw [List.append_nil, ← h.spelled] at hfile
      rcases hfile with ⟨target, content, hfile⟩
      cases e with
      | file content => exact .file
      | directory entries =>
          rw [entry_followed h.found (by simp)] at hfile
          cases hfile
      | link link => exact .linkedFile hfile
  | cons name names ih =>
      rcases into_of_comesTo hcomes with ⟨target, entries, inner, hdirectory, hanew, hmember⟩
      rw [← h.spelled] at hdirectory
      rw [List.append_cons] at hcomes hfile
      have hdown := ih (stands_enter htop h hdirectory hanew hmember) hcomes hfile
      cases e with
      | file content =>
          rw [entry_followed h.found (by simp)] at hdirectory
          cases hdirectory
      | directory others =>
          rw [entry_followed h.found (by simp)] at hdirectory
          cases hdirectory
          exact .directory hmember hdown
      | link link => exact .linkedDirectory hdirectory ((opensAnew_iff h).mp hanew) hmember hdown

end Stands

theorem stands_root {t : FileTree} {root : Path} {place : List String} {e : Entry}
    (h : t.entry false root = .ok (place, e)) : t.Stands root [] [] root place e := by
  refine ⟨rfl, .root h, h, ?_⟩
  intro target
  simp

theorem reaches_iff_comesTo {t : FileTree} (htop : t.top.WellFormed) {root : Path}
    {names : List String} :
    t.Reaches root names <-> t.ComesTo root names ∧ t.HoldsFile (root.below names) := by
  constructor
  · intro h
    rcases h with ⟨place, e, hentry, hdown⟩
    exact comesTo_of_descends htop (stands_root hentry) hdown
  · intro h
    rcases h with ⟨hcomes, hfile⟩
    rcases entry_of_comesTo hcomes with ⟨⟨place, e⟩, hentry⟩
    exact ⟨place, e, hentry, descends_of_comesTo htop (stands_root hentry) hcomes hfile⟩

/-!
# There are finitely many ways
-/

section Finite

variable {t : FileTree} {root : Path} {before : List String}

theorem finite_of_closed
    (hclosed : forall place entries,
      t.entry true (root.below before) = .ok (place, .directory entries) ->
        ¬ t.OpensAnew root before place) :
    {names | t.ComesTo root (before ++ names)}.Finite := by
  refine (Set.finite_singleton []).subset ?_
  intro names hcomes
  cases names with
  | nil => exact Set.mem_singleton []
  | cons name names =>
      rcases into_of_comesTo hcomes with ⟨place, entries, _, hdirectory, hanew, _⟩
      exact absurd hanew (hclosed place entries hdirectory)

theorem finite_of_no_directory {opened : List (List String)} {path : Path} {place : List String}
    {e : Entry} {found : Except OsError (List String × Entry)}
    (h : t.Stands root before opened path place e) (hfound : t.entry true path = found)
    (hnone : forall target entries, found ≠ .ok (target, .directory entries)) :
    {names | t.ComesTo root (before ++ names)}.Finite := by
  apply finite_of_closed
  intro target entries hdirectory
  rw [← h.spelled, hfound] at hdirectory
  exact absurd hdirectory (hnone target entries)

theorem finite_of_directory {place : List String} {entries : List (String × Entry)}
    (hdirectory : t.entry true (root.below before) = .ok (place, .directory entries))
    (hinner : forall entry, entry ∈ entries ->
      {names | t.ComesTo root (before ++ [entry.1] ++ names)}.Finite) :
    {names | t.ComesTo root (before ++ names)}.Finite := by
  have hbelow := (List.finite_toSet entries).biUnion fun entry hentry =>
    (hinner entry hentry).image (entry.1 :: ·)
  refine (hbelow.insert []).subset ?_
  intro names hcomes
  cases names with
  | nil => exact Set.mem_insert _ _
  | cons name names =>
      rcases into_of_comesTo hcomes with ⟨_, _, inner, hfound, _, hmember⟩
      rw [hdirectory] at hfound
      cases hfound
      refine Set.mem_insert_of_mem _ (Set.mem_biUnion hmember ⟨names, ?_, rfl⟩)
      rw [Set.mem_ofPred_eq, ← List.append_cons]
      exact hcomes

-- The recursion of the walk carries the induction: each link that it follows opens one of the
-- finitely many directories that are not open.
theorem finite_of_stands (htop : t.top.WellFormed) (above : List OpenDirectory) (path : Path)
    (place : List String) (e : Entry) :
    forall before, t.Stands root before (above.map OpenDirectory.place) path place e ->
      {names | t.ComesTo root (before ++ names)}.Finite := by
  fun_induction walkEntry t (fun _ => false) above path place e with
  | case1 => contradiction
  | case2 above path place content =>
      intro before h
      exact finite_of_no_directory h (entry_followed h.found (by simp)) (by simp)
  | case3 => contradiction
  | case4 above path place entries _ ih =>
      intro before h
      have hdirectory := entry_followed h.found (by simp)
      refine finite_of_directory (h.spelled ▸ hdirectory) ?_
      intro entry hmember
      rcases entry with ⟨name, inner⟩
      exact ih name inner (List.mem_mergeSort.mpr hmember) _
        (stands_enter htop h hdirectory (opensAnew_of_plain h (by simp) _) hmember)
  | case5 above path place link error hfollow =>
      intro before h
      exact finite_of_no_directory h (entry_of_follow.trans (by rw [hfollow])) (by simp [Except.map])
  | case6 => contradiction
  | case7 above path place link target content hat hfollow =>
      intro before h
      exact finite_of_no_directory h (entry_of_follow.trans (by rw [hfollow])) (by simp [Except.map])
  | case8 above path place link target other hat hfollow =>
      intro before h
      exact finite_of_no_directory h (entry_of_follow.trans (by rw [hfollow])) (by simp [Except.map])
  | case9 above path place link target entries hat hfollow ancestor hopen =>
      intro before h
      apply finite_of_closed
      intro other others hdirectory
      rw [← h.spelled, entry_of_follow, hfollow] at hdirectory
      cases hdirectory
      rw [opensAnew_iff h, not_not]
      exact mem_places_of_find? hopen
  | case10 => contradiction
  | case11 above path place link target entries hat hfollow hclosed _ ih =>
      intro before h
      have hdirectory := entry_of_followed hfollow
      refine finite_of_directory (h.spelled ▸ hdirectory) ?_
      intro entry hmember
      rcases entry with ⟨name, inner⟩
      exact ih name inner _
        (stands_enter htop h hdirectory (opensAnew_of_closed h hclosed) hmember)

theorem finite_comesTo (htop : t.top.WellFormed) (root : Path) :
    {names | t.ComesTo root names}.Finite := by
  cases hentry : t.entry false root with
  | ok found => exact finite_of_stands htop [] root found.1 found.2 [] (stands_root hentry)
  | error e =>
      refine Set.finite_empty.subset ?_
      intro names hcomes
      rcases entry_of_comesTo hcomes with ⟨found, hfound⟩
      rw [hentry] at hfound
      cases hfound

end Finite

end FileTree
end JsxUsage
