import JsxUsage.Proofs.Arrivals

/-!
# Faults of a walk

A walk reports the links that it comes to and cannot follow, and those that lead back to a
directory on the way, in which case it names the last path on the way that leads to this
directory.  This module proves that it reports these and nothing else.  A link is followed
before anything asks whether it is skipped, so a fault is reported wherever nothing above
it is skipped.
-/

namespace JsxUsage
namespace FileTree

/-!
# The directories on a way
-/

/-- The way by the names leads through the directories `above`, the last one first. -/
inductive Opens (t : FileTree) (root : Path) : List String -> List OpenDirectory -> Prop where
  | root : Opens t root [] []
  | into {names : List String} {above : List OpenDirectory} {place : List String} {e : Entry}
      {name : String} : Opens t root names above ->
      t.entry true (root.below names) = .ok (place, e) ->
      Opens t root (names ++ [name]) (⟨root.below names, place⟩ :: above)

/-- By the names `front` one comes on the way to the place, and never again later on. -/
structure Last (t : FileTree) (root : Path) (names place front : List String) : Prop where
  onWay : front <+: names
  before : front ≠ names
  leads : exists e, t.entry true (root.below front) = .ok (place, e)
  last : forall longer, front <+: longer -> longer <+: names -> longer ≠ front ->
    longer ≠ names -> forall e, t.entry true (root.below longer) ≠ .ok (place, e)

section Opens

variable {t : FileTree} {root : Path} {names place : List String}

theorem ne_concat_of_prefix {front : List String} {name : String} (h : front <+: names) :
    front ≠ names ++ [name] := by
  intro heq
  have hlength := h.length_le
  rw [heq, List.length_append, List.length_singleton] at hlength
  omega

theorem last_concat_self {name : String} {e : Entry}
    (h : t.entry true (root.below names) = .ok (place, e)) :
    t.Last root (names ++ [name]) place names := by
  refine ⟨List.prefix_append _ _, by simp, ⟨e, h⟩, ?_⟩
  intro longer hfront hlonger hnot hend
  rcases List.prefix_concat_iff.mp hlonger with hwhole | hshort
  · exact absurd hwhole hend
  · exact absurd (hshort.eq_of_length (Nat.le_antisymm hshort.length_le hfront.length_le)) hnot

/-- Where the way ends at another place, its last step does not count. -/
theorem last_concat_iff {name : String} {front other : List String} {e : Entry}
    (h : t.entry true (root.below names) = .ok (other, e)) (hother : other ≠ place) :
    t.Last root (names ++ [name]) place front <-> t.Last root names place front := by
  have hnames : forall e', t.entry true (root.below names) ≠ .ok (place, e') := by
    intro e' hleads
    rw [h] at hleads
    exact hother (congrArg Prod.fst (Except.ok.inj hleads))
  constructor
  · intro hlast
    rcases hlast.leads with ⟨e', hleads⟩
    have hne : front ≠ names := by
      intro heq
      rw [heq] at hleads
      exact hnames e' hleads
    rcases List.prefix_concat_iff.mp hlast.onWay with hwhole | hshort
    · exact absurd hwhole hlast.before
    · refine ⟨hshort, hne, hlast.leads, ?_⟩
      intro longer hfront hlonger hnot _
      refine hlast.last longer hfront (hlonger.trans (List.prefix_append _ _)) hnot ?_
      exact ne_concat_of_prefix hlonger
  · intro hlast
    refine ⟨hlast.onWay.trans (List.prefix_append _ _), ne_concat_of_prefix hlast.onWay,
      hlast.leads, ?_⟩
    intro longer hfront hlonger hnot hend
    rcases List.prefix_concat_iff.mp hlonger with hwhole | hshort
    · exact absurd hwhole hend
    · by_cases heq : longer = names
      · rw [heq]
        exact hnames
      · exact hlast.last longer hfront hshort hnot heq

theorem last_unique {front front' : List String} (h : t.Last root names place front)
    (h' : t.Last root names place front') : front = front' := by
  rcases List.prefix_or_prefix_of_prefix h.onWay h'.onWay with hle | hle
  · by_contra hne
    rcases h'.leads with ⟨e, hleads⟩
    exact h.last front' hle h'.onWay (Ne.symm hne) h'.before e hleads
  · by_contra hne
    rcases h.leads with ⟨e, hleads⟩
    exact h'.last front hle h.onWay hne h.before e hleads

/-- The first directory above with a place is the last path on the way that leads to it. -/
theorem find?_of_opens {above : List OpenDirectory} (h : t.Opens root names above)
    {ancestor : OpenDirectory} :
    above.find? (·.place == place) = some ancestor <->
      exists front, t.Last root names place front ∧ ancestor = ⟨root.below front, place⟩ := by
  induction h with
  | root =>
      simp only [List.find?_nil, reduceCtorEq, false_iff, not_exists, not_and]
      intro front hlast
      exact absurd (List.prefix_nil.mp hlast.onWay) hlast.before
  | @into names above other e name _ hleads ih =>
      rw [List.find?_cons]
      by_cases hother : other = place
      · subst hother
        have hself : t.Last root (names ++ [name]) other names := last_concat_self hleads
        simp only [BEq.rfl, Option.some.injEq]
        constructor
        · intro heq
          exact ⟨names, hself, heq.symm⟩
        · intro h
          rcases h with ⟨front, hlast, rfl⟩
          rw [last_unique hlast hself]
      · simp only [beq_eq_false_iff_ne.mpr hother, last_concat_iff hleads hother]
        exact ih

end Opens

/-!
# Faults
-/

/-- At the end of the way by the names there is a link that cannot be followed, or one that
leads back to a directory on the way. -/
inductive Faulty (t : FileTree) (root : Path) (names : List String) : WalkFault -> Prop where
  | unusable {e : OsError} : t.entry true (root.below names) = .error e ->
      Faulty t root names (.unusable (root.below names) e)
  | loop {stands place front : List String} {target : Path} {entries : List (String × Entry)} :
      t.entry false (root.below names) = .ok (stands, .link target) ->
      t.entry true (root.below names) = .ok (place, .directory entries) ->
      t.Last root names place front ->
      Faulty t root names (.loop (root.below names) (root.below front))

/-- Nothing above the end of the way from `path` by the names is skipped. -/
def ClearAbove (skip : Path -> Bool) (path : Path) (names : List String) : Prop :=
  forall front, front <+: names -> front ≠ names -> skip (path.below front) = false

theorem clearAbove_nil (skip : Path -> Bool) (path : Path) : ClearAbove skip path [] := by
  intro front hfront hne
  exact absurd (List.prefix_nil.mp hfront) hne

theorem clearAbove_cons {skip : Path -> Bool} {path : Path} {name : String} {names : List String} :
    ClearAbove skip path (name :: names) <->
      skip path = false ∧ ClearAbove skip (path.join ⟨name⟩) names := by
  constructor
  · intro h
    refine ⟨h [] List.nil_prefix (by simp), ?_⟩
    intro front hfront hne
    exact h (name :: front) ((List.prefix_cons_inj name).mpr hfront) (by simpa using hne)
  · intro h front hfront hne
    rcases List.prefix_cons_iff.mp hfront with rfl | ⟨inner, rfl, hinner⟩
    · exact h.left
    · exact h.right inner hinner (by simpa using hne)

/-- Behind the names `before` one comes to the fault. -/
def ComesToFault (t : FileTree) (skip : Path -> Bool) (root : Path) (before : List String)
    (path : Path) (fault : WalkFault) : Prop :=
  exists names, t.ComesTo root (before ++ names) ∧ ClearAbove skip path names ∧
    t.Faulty root (before ++ names) fault

section Walk

variable {t : FileTree} {skip : Path -> Bool} {root path : Path} {before place : List String}
variable {above : List OpenDirectory} {opened : List (List String)} {e : Entry} {fault : WalkFault}

theorem not_faulty_of_plain (h : t.Stands root before opened path place e)
    (hplain : forall target, e ≠ .link target) : ¬ t.Faulty root before fault := by
  have hfound := entry_followed h.found hplain
  rw [h.spelled] at hfound
  intro hfault
  cases hfault with
  | unusable herror =>
      rw [hfound] at herror
      cases herror
  | loop hlink _ _ =>
      rw [← h.spelled, h.found] at hlink
      cases hlink
      exact hplain _ rfl

/-- Where the way does not go on, the only fault is one at its end. -/
theorem comesToFault_iff_faulty (h : t.Stands root before opened path place e)
    (hend : forall name names, t.ComesTo root (before ++ name :: names) -> skip path = true) :
    t.ComesToFault skip root before path fault <-> t.Faulty root before fault := by
  constructor
  · intro hcomes
    rcases hcomes with ⟨names, hcomes, hclear, hfault⟩
    cases names with
    | nil => rwa [List.append_nil] at hfault
    | cons name names =>
        rw [(clearAbove_cons.mp hclear).left] at hend
        cases hend name names hcomes
  · intro hfault
    refine ⟨[], ?_, clearAbove_nil skip path, ?_⟩
    · rw [List.append_nil]
      exact h.comes
    · rwa [List.append_nil]

/-- Where the way goes on into a directory, the faults are those behind its entries. -/
theorem error_mem_listing {entries : List (String × Entry)} {target : List String}
    {items : { entry // entry ∈ Entry.listing entries } -> List (Except WalkFault Path)}
    (h : t.Stands root before opened path place e)
    (hdirectory : t.entry true path = .ok (target, .directory entries))
    (hself : ¬ t.Faulty root before fault) (hskip : ¬ skip path = true)
    (hitems : forall entry, .error fault ∈ items entry <->
      t.ComesToFault skip root (before ++ [entry.1.1]) (path.join ⟨entry.1.1⟩) fault) :
    .error fault ∈ (Entry.listing entries).attach.flatMap items <->
      t.ComesToFault skip root before path fault := by
  rw [List.mem_flatMap]
  constructor
  · intro hmem
    rcases hmem with ⟨entry, _, hmem⟩
    rcases (hitems entry).mp hmem with ⟨names, hcomes, hclear, hfault⟩
    rw [← List.append_cons] at hcomes hfault
    exact ⟨entry.1.1 :: names, hcomes,
      clearAbove_cons.mpr ⟨Bool.eq_false_iff.mpr hskip, hclear⟩, hfault⟩
  · intro hcomes
    rcases hcomes with ⟨names, hcomes, hclear, hfault⟩
    cases names with
    | nil =>
        rw [List.append_nil] at hfault
        exact absurd hfault hself
    | cons name names =>
        rcases into_of_comesTo hcomes with ⟨_, _, inner, hfound, _, hmember⟩
        rw [← h.spelled, hdirectory] at hfound
        cases hfound
        refine ⟨⟨(name, inner), List.mem_mergeSort.mpr hmember⟩, List.mem_attach _ _, ?_⟩
        rw [List.append_cons] at hcomes hfault
        exact (hitems _).mpr ⟨names, hcomes, (clearAbove_cons.mp hclear).right, hfault⟩

theorem skip_of_no_directory (h : t.Stands root before opened path place e)
    {found : Except OsError (List String × Entry)} (hfound : t.entry true path = found)
    (hnone : forall target entries, found ≠ .ok (target, .directory entries)) :
    forall name names, t.ComesTo root (before ++ name :: names) -> skip path = true := by
  intro name names hcomes
  rcases into_of_comesTo hcomes with ⟨target, entries, _, hdirectory, _⟩
  rw [← h.spelled, hfound] at hdirectory
  exact absurd hdirectory (hnone target entries)

/-- A link to a directory is faulty if the directory is open. -/
theorem faulty_link_iff {link : Path} {target : List String} {entries : List (String × Entry)}
    (h : t.Stands root before opened path place (.link link)) (hopens : t.Opens root before above)
    (hdirectory : t.entry true path = .ok (target, .directory entries)) :
    t.Faulty root before fault <->
      exists ancestor, above.find? (·.place == target) = some ancestor ∧
        fault = .loop path ancestor.path := by
  have hpath := h.spelled
  subst hpath
  constructor
  · intro hfault
    cases hfault with
    | unusable herror =>
        rw [hdirectory] at herror
        cases herror
    | loop _ hleads hlast =>
        rw [hdirectory] at hleads
        cases hleads
        exact ⟨_, (find?_of_opens hopens).mpr ⟨_, hlast, rfl⟩, rfl⟩
  · intro hopen
    rcases hopen with ⟨ancestor, hfind, rfl⟩
    rcases (find?_of_opens hopens).mp hfind with ⟨front, hlast, rfl⟩
    exact .loop h.found hdirectory hlast

theorem faulty_broken_iff {error : OsError} (h : t.Stands root before opened path place e)
    (herror : t.entry true path = .error error) :
    t.Faulty root before fault <-> fault = .unusable path error := by
  have hpath := h.spelled
  subst hpath
  constructor
  · intro hfault
    cases hfault with
    | unusable hother =>
        rw [herror] at hother
        cases hother
        rfl
    | loop _ hother _ =>
        rw [herror] at hother
        cases hother
  · intro hfault
    subst hfault
    exact .unusable herror

theorem not_faulty_of_file {target : List String} {content : Content}
    (h : t.Stands root before opened path place e)
    (hfile : t.entry true path = .ok (target, .file content)) : ¬ t.Faulty root before fault := by
  rw [h.spelled] at hfile
  intro hfault
  cases hfault with
  | unusable herror =>
      rw [hfile] at herror
      cases herror
  | loop _ hdirectory _ =>
      rw [hfile] at hdirectory
      cases hdirectory

theorem error_mem_walkEntry (htop : t.top.WellFormed) (above : List OpenDirectory) (path : Path)
    (place : List String) (e : Entry) (skip : Path -> Bool) :
    forall before, t.Stands root before (above.map OpenDirectory.place) path place e ->
      t.Opens root before above ->
      (.error fault ∈ t.walkEntry skip above path place e <->
        t.ComesToFault skip root before path fault) := by
  fun_induction walkEntry t skip above path place e with
  | case1 above path place content hskip =>
      intro before h _
      rw [comesToFault_iff_faulty h fun _ _ _ => hskip]
      simpa using not_faulty_of_plain h (by simp)
  | case2 above path place content _ =>
      intro before h _
      rw [comesToFault_iff_faulty h
        (skip_of_no_directory h (entry_followed h.found (by simp)) (by simp))]
      simpa using not_faulty_of_plain h (by simp)
  | case3 above path place entries hskip =>
      intro before h _
      rw [comesToFault_iff_faulty h fun _ _ _ => hskip]
      simpa using not_faulty_of_plain h (by simp)
  | case4 above path place entries hskip ih =>
      intro before h hopens
      have hdirectory := entry_followed h.found (by simp)
      refine error_mem_listing h hdirectory (not_faulty_of_plain h (by simp)) hskip ?_
      intro entry
      rcases entry with ⟨⟨name, inner⟩, hmember⟩
      have hinner := stands_enter htop h hdirectory (opensAnew_of_plain h (by simp) _)
        (Entry.mem_of_mem_listing hmember)
      have hpath := h.spelled
      subst hpath
      exact ih name inner hmember _ hinner (.into hopens hdirectory)
  | case5 above path place link error hfollow =>
      intro before h _
      have herror : t.entry true path = .error error := by
        rw [entry_of_follow, hfollow]
        rfl
      rw [comesToFault_iff_faulty h (skip_of_no_directory h herror (by simp)),
        faulty_broken_iff h herror, List.mem_singleton, Except.error.injEq]
  | case6 above path place link target content hat hfollow hskip =>
      intro before h _
      rw [comesToFault_iff_faulty h fun _ _ _ => hskip]
      simpa using not_faulty_of_file h (entry_of_followed hfollow)
  | case7 above path place link target content hat hfollow hskip =>
      intro before h _
      have hfile := entry_of_followed hfollow
      rw [comesToFault_iff_faulty h (skip_of_no_directory h hfile (by simp))]
      simpa using not_faulty_of_file h hfile
  | case8 above path place link target other hat hfollow =>
      exact absurd rfl (entry_plain (entry_of_followed hfollow) other)
  | case9 above path place link target entries hat hfollow ancestor hopen =>
      intro before h hopens
      have hdirectory := entry_of_followed hfollow
      have hend : forall name names, t.ComesTo root (before ++ name :: names) ->
          skip path = true := by
        intro name names hcomes
        rcases into_of_comesTo hcomes with ⟨other, others, _, hother, hanew, _⟩
        rw [← h.spelled, hdirectory] at hother
        cases hother
        exact absurd (mem_places_of_find? hopen) ((opensAnew_iff h).mp hanew)
      rw [comesToFault_iff_faulty h hend, faulty_link_iff h hopens hdirectory, hopen]
      simp
  | case10 above path place link target entries hat hfollow hclosed hskip =>
      intro before h hopens
      rw [comesToFault_iff_faulty h fun _ _ _ => hskip,
        faulty_link_iff h hopens (entry_of_followed hfollow), hclosed]
      simp
  | case11 above path place link target entries hat hfollow hclosed hskip ih =>
      intro before h hopens
      have hdirectory := entry_of_followed hfollow
      have hself : ¬ t.Faulty root before fault := by
        rw [faulty_link_iff h hopens hdirectory, hclosed]
        simp
      refine error_mem_listing h hdirectory hself hskip ?_
      intro entry
      rcases entry with ⟨⟨name, inner⟩, hmember⟩
      have hinner := stands_enter htop h hdirectory (opensAnew_of_closed h hclosed)
        (Entry.mem_of_mem_listing hmember)
      have hpath := h.spelled
      subst hpath
      exact ih name inner _ hinner (.into hopens hdirectory)

/-- A walk reports a root that is not there, and otherwise the faults that one comes to. -/
theorem error_mem_walk_iff (htop : t.top.WellFormed) :
    .error fault ∈ t.walk skip root <->
      (exists e, t.entry false root = .error e ∧ fault = .unusable root e) ∨
        exists names, t.ComesTo root names ∧ ClearAbove skip root names ∧
          t.Faulty root names fault := by
  unfold walk
  cases hentry : t.entry false root with
  | error e =>
      simp only [List.mem_singleton, Except.error.injEq, exists_eq_left']
      constructor
      · exact Or.inl
      · intro h
        rcases h with h | ⟨names, hcomes, _⟩
        · exact h
        · rcases entry_of_comesTo hcomes with ⟨found, hfound⟩
          rw [hentry] at hfound
          cases hfound
  | ok found =>
      have hwalk : .error fault ∈ t.walkEntry skip [] root found.1 found.2 <->
          t.ComesToFault skip root [] root fault :=
        error_mem_walkEntry htop [] root found.1 found.2 skip [] (stands_root hentry) .root
      simpa [ComesToFault] using hwalk

end Walk

end FileTree
end JsxUsage
