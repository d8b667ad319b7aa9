import JsxUsage.Proofs.CatalogPaths

/-!
# Looking up paths

A lookup takes the pieces of a path one by one and follows links on the way.  This
module reads it as rules and proves how lookups of different paths hang together: an
entry of a directory is found by its name behind any path of the directory, whether
links lead there or not, and what is no link is found whether links are followed at
the end or not.
-/

namespace JsxUsage

namespace Entry

theorem named?_of_mem {entries : List (String × Entry)} (hdistinct : (entries.map Prod.fst).Nodup)
    {name : String} {e : Entry} (hmem : (name, e) ∈ entries) : named? name entries = some e := by
  induction entries with
  | nil => cases hmem
  | cons first rest ih =>
      rcases first with ⟨n, old⟩
      rcases List.nodup_cons.mp hdistinct with ⟨hnew, hrest⟩
      rcases List.mem_cons.mp hmem with hfirst | hlater
      · cases hfirst
        simp [named?]
      · have hother : n ≠ name := by
          intro heq
          subst heq
          exact hnew (List.mem_map.mpr ⟨(n, e), hlater, rfl⟩)
        simpa [named?, hother] using ih hrest hlater

theorem at?_append {e inner : Entry} {place : List String} (h : e.at? place = some inner)
    (more : List String) : e.at? (place ++ more) = inner.at? more := by
  induction place generalizing e with
  | nil =>
      rw [at?] at h
      cases h
      rfl
  | cons name rest ih =>
      cases e with
      | file content => cases h
      | link target => cases h
      | directory entries =>
          rw [at?] at h
          rw [List.cons_append, at?]
          split at h
          · exact ih h
          · cases h

/-- What stands at a place is an entry of the directory in front. -/
theorem named?_of_at?_concat {e inner : Entry} {place : List String} {name : String}
    (h : e.at? (place ++ [name]) = some inner) :
    exists entries, e.at? place = some (directory entries) ∧ named? name entries = some inner := by
  induction place generalizing e with
  | nil =>
      cases e with
      | file content => cases h
      | link target => cases h
      | directory entries =>
          refine ⟨entries, rfl, ?_⟩
          rw [List.nil_append, at?] at h
          split at h
          · next below hbelow =>
              rw [at?] at h
              rw [hbelow, h]
          · cases h
  | cons first rest ih =>
      cases e with
      | file content => cases h
      | link target => cases h
      | directory entries =>
          rw [List.cons_append, at?] at h
          rw [at?]
          split at h
          · exact ih h
          · cases h

theorem isName_of_at? {e inner : Entry} {place : List String} (hwell : e.WellFormed)
    (h : e.at? place = some inner) : forall name, name ∈ place -> Path.IsName name := by
  induction place generalizing e with
  | nil => simp
  | cons first rest ih =>
      cases e with
      | file content => cases h
      | link target => cases h
      | directory entries =>
          rcases wellFormed_directory_iff.mp hwell with ⟨hnames, _, hinner⟩
          rw [at?] at h
          split at h
          · next below hbelow =>
              have hmem := mem_of_named? hbelow
              exact List.forall_mem_cons.mpr ⟨hnames _ hmem, ih (hinner _ hmem) h⟩
          · cases h

theorem at?_dropLast {e inner : Entry} {place : List String} (h : e.at? place = some inner)
    (hinner : inner.isDirectory = true) :
    exists above, e.at? place.dropLast = some above ∧ above.isDirectory = true := by
  induction place generalizing e with
  | nil => exact ⟨inner, h, hinner⟩
  | cons name rest ih =>
      cases e with
      | file content => cases h
      | link target => cases h
      | directory entries =>
          rw [at?] at h
          split at h
          · next below hbelow =>
              cases rest with
              | nil => exact ⟨directory entries, rfl, rfl⟩
              | cons piece others =>
                  rcases ih h with ⟨above, habove, hdirectory⟩
                  refine ⟨above, ?_, hdirectory⟩
                  rw [List.dropLast_cons_cons, at?, hbelow]
                  exact habove
          · cases h

end Entry

namespace FileTree

/-!
# Lookups as rules
-/

/-- There is a directory at the place. -/
def HasDirectory (t : FileTree) (place : List String) : Prop :=
  exists here, t.top.at? place = some here ∧ here.isDirectory = true

/-- The pieces lead from a place to the place `found`, through at most so many links.  A
link at the end is followed only if `follow` holds. -/
inductive Leads (t : FileTree) (follow : Bool) (found : List String) :
    (links : Nat) -> (place todo : List String) -> Prop where
  | done {links : Nat} : Leads t follow found links found []
  | here {links : Nat} {place : List String} {piece : String} {rest : List String}
      (directory : t.HasDirectory place) (same : piece = "" ∨ piece = ".")
      (onward : Leads t follow found links place rest) :
      Leads t follow found links place (piece :: rest)
  | up {links : Nat} {place rest : List String} (directory : t.HasDirectory place)
      (onward : Leads t follow found links place.dropLast rest) :
      Leads t follow found links place (".." :: rest)
  | down {links : Nat} {place : List String} {piece : String} {rest : List String} {e : Entry}
      (directory : t.HasDirectory place) (name : piece ∉ ["", ".", ".."])
      (next : t.top.at? (place ++ [piece]) = some e) (plain : forall target, e ≠ .link target)
      (onward : Leads t follow found links (place ++ [piece]) rest) :
      Leads t follow found links place (piece :: rest)
  | link {links : Nat} {place : List String} {piece : String} {rest : List String} {target : Path}
      (directory : t.HasDirectory place) (name : piece ∉ ["", ".", ".."])
      (next : t.top.at? (place ++ [piece]) = some (.link target))
      (followed : rest ≠ [] ∨ follow = true) (text : target.text ≠ "")
      (onward : Leads t follow found links (if target.isAbsolute then [] else place)
        ((Path.pieces target.text.toList).map String.ofList ++ rest)) :
      Leads t follow found (links + 1) place (piece :: rest)
  | stop {links : Nat} {place : List String} {piece : String} {target : Path}
      (directory : t.HasDirectory place) (name : piece ∉ ["", ".", ".."])
      (next : t.top.at? (place ++ [piece]) = some (.link target)) (unfollowed : follow = false)
      (here : found = place ++ [piece]) : Leads t follow found links place [piece]

section Locate

variable {t : FileTree} {follow : Bool} {links : Nat} {place todo found : List String}

theorem hasDirectory_of_at? {here : Entry} (hat : t.top.at? place = some here)
    (hdirectory : ¬(!here.isDirectory) = true) : t.HasDirectory place :=
  ⟨here, hat, by simpa using hdirectory⟩

theorem name_of_not_step {piece : String} (hsame : ¬(piece == "" || piece == ".") = true)
    (hup : ¬(piece == "..") = true) : piece ∉ ["", ".", ".."] := by
  simp_all

theorem leads_of_locate (h : t.locate follow links place todo = .ok found) :
    t.Leads follow found links place todo := by
  fun_induction locate t follow links place todo with
  | case1 =>
      cases h
      exact .done
  | case2 => cases h
  | case3 => cases h
  | case4 links place piece rest here hat hdirectory hsame ih =>
      refine .here (hasDirectory_of_at? hat hdirectory) ?_ (ih h)
      simpa using hsame
  | case5 links place piece rest here hat hdirectory hsame hup ih =>
      rw [beq_iff_eq] at hup
      subst hup
      exact .up (hasDirectory_of_at? hat hdirectory) (ih h)
  | case6 => cases h
  | case7 links place piece rest here hat hdirectory hsame hup next target hnext hlast =>
      rw [Bool.and_eq_true, List.isEmpty_iff] at hlast
      rcases hlast with ⟨rfl, hfollow⟩
      exact .stop (hasDirectory_of_at? hat hdirectory) (name_of_not_step hsame hup) hnext
        (by simpa using hfollow) (Except.ok.inj h).symm
  | case8 => cases h
  | case9 => cases h
  | case10 place piece rest here hat hdirectory hsame hup next target hnext hlast links start
      pieces htext ih =>
      refine .link (hasDirectory_of_at? hat hdirectory) (name_of_not_step hsame hup) hnext ?_ ?_
        (ih h)
      · cases rest with
        | nil => exact Or.inr (by simpa using hlast)
        | cons next others => exact Or.inl (List.cons_ne_nil _ _)
      · simpa using htext
  | case11 links place piece rest here hat hdirectory hsame hup next e hplain hnext ih =>
      exact .down (hasDirectory_of_at? hat hdirectory) (name_of_not_step hsame hup) hnext
        (fun target htarget => hplain target htarget) (ih h)

theorem locate_of_leads (h : t.Leads follow found links place todo) :
    t.locate follow links place todo = .ok found := by
  induction h with
  | done => rw [locate]
  | here hdirectory hsame honward ih =>
      rcases hdirectory with ⟨here, hat, hdirectory⟩
      rw [locate, hat]
      rcases hsame with rfl | rfl <;> simpa [hdirectory] using ih
  | up hdirectory honward ih =>
      rcases hdirectory with ⟨here, hat, hdirectory⟩
      rw [locate, hat]
      simpa [hdirectory] using ih
  | @down links place piece rest e hdirectory hname hnext hplain honward ih =>
      rcases hdirectory with ⟨here, hat, hdirectory⟩
      simp only [List.mem_cons, List.not_mem_nil, or_false, not_or] at hname
      rw [locate, hat]
      cases e with
      | link target => exact absurd rfl (hplain target)
      | file content => simpa [hdirectory, hname, hnext] using ih
      | directory entries => simpa [hdirectory, hname, hnext] using ih
  | link hdirectory hname hnext hfollowed htext honward ih =>
      rcases hdirectory with ⟨here, hat, hdirectory⟩
      simp only [List.mem_cons, List.not_mem_nil, or_false, not_or] at hname
      rw [locate, hat]
      rcases hfollowed with hrest | rfl
      · simpa [hdirectory, hname, hnext, htext, hrest] using ih
      · simpa [hdirectory, hname, hnext, htext] using ih
  | stop hdirectory hname hnext hunfollowed hhere =>
      rcases hdirectory with ⟨above, hat, hdirectory⟩
      simp only [List.mem_cons, List.not_mem_nil, or_false, not_or] at hname
      rw [locate, hat]
      simp [hdirectory, hname, hnext, hunfollowed, hhere]

/-!
# Longer and shorter paths
-/

/-- What is in a directory is found by its name behind the pieces that lead to the directory. -/
theorem leads_snoc {entries : List (String × Entry)} {name : String} {e : Entry}
    (h : t.Leads true found links place todo)
    (hfound : t.top.at? found = some (.directory entries)) (hname : Path.IsName name)
    (hentry : Entry.named? name entries = some e) :
    t.Leads false (found ++ [name]) links place (todo ++ [name]) := by
  induction h with
  | done =>
      have hdirectory : t.HasDirectory found := ⟨_, hfound, rfl⟩
      have hpiece : name ∉ ["", ".", ".."] := by
        simp [hname.nonempty, hname.notHere, hname.notUp]
      have hnext : t.top.at? (found ++ [name]) = some e := by
        rw [Entry.at?_append hfound, Entry.at?, hentry]
        cases e <;> rfl
      cases e with
      | link target => exact .stop hdirectory hpiece hnext rfl rfl
      | file content => exact .down hdirectory hpiece hnext (by simp) .done
      | directory inner => exact .down hdirectory hpiece hnext (by simp) .done
  | here hdirectory hsame _ ih => exact .here hdirectory hsame ih
  | up hdirectory _ ih => exact .up hdirectory ih
  | down hdirectory hname hnext hplain _ ih => exact .down hdirectory hname hnext hplain ih
  | link hdirectory hname hnext _ htext _ ih =>
      rw [List.append_assoc] at ih
      exact .link hdirectory hname hnext (Or.inl (by simp)) htext ih
  | stop _ _ _ hunfollowed _ => cases hunfollowed

/-- An empty piece at the end leads nowhere else. -/
theorem leads_of_leads_snoc_empty (h : t.Leads true found links place (todo ++ [""])) :
    t.Leads true found links place todo := by
  generalize hpieces : todo ++ [""] = pieces at h
  induction h generalizing todo with
  | done => simp at hpieces
  | here hdirectory hsame honward ih =>
      cases todo with
      | nil =>
          cases hpieces
          exact honward
      | cons piece rest =>
          cases hpieces
          exact .here hdirectory hsame (ih rfl)
  | up hdirectory honward ih =>
      cases todo with
      | nil => simp at hpieces
      | cons piece rest =>
          cases hpieces
          exact .up hdirectory (ih rfl)
  | down hdirectory hname hnext hplain honward ih =>
      cases todo with
      | nil =>
          cases hpieces
          simp at hname
      | cons piece rest =>
          cases hpieces
          exact .down hdirectory hname hnext hplain (ih rfl)
  | link hdirectory hname hnext _ htext honward ih =>
      cases todo with
      | nil =>
          cases hpieces
          simp at hname
      | cons piece rest =>
          cases hpieces
          exact .link hdirectory hname hnext (Or.inr rfl) htext (ih (List.append_assoc _ _ _))
  | stop _ _ _ hunfollowed _ => cases hunfollowed

theorem leads_followed {e : Entry} (h : t.Leads false found links place todo)
    (hfound : t.top.at? found = some e) (hplain : forall target, e ≠ .link target) :
    t.Leads true found links place todo := by
  induction h with
  | done => exact .done
  | here hdirectory hsame _ ih => exact .here hdirectory hsame ih
  | up hdirectory _ ih => exact .up hdirectory ih
  | down hdirectory hname hnext hplain _ ih => exact .down hdirectory hname hnext hplain ih
  | link hdirectory hname hnext _ htext _ ih =>
      exact .link hdirectory hname hnext (Or.inr rfl) htext ih
  | stop _ _ hnext _ hhere =>
      rw [hhere, hnext] at hfound
      exact absurd (Option.some.inj hfound).symm (hplain _)

theorem not_link_of_hasDirectory (h : t.HasDirectory place) (target : Path) :
    t.top.at? place ≠ some (.link target) := by
  rcases h with ⟨here, hat, hdirectory⟩
  rw [hat]
  intro h
  cases h
  cases hdirectory

/-- Where links are followed, a lookup that takes a piece does not end at a link. -/
theorem not_link_of_leads (h : t.Leads true found links place todo)
    (hplace : todo = [] -> forall target, t.top.at? place ≠ some (.link target)) :
    forall target, t.top.at? found ≠ some (.link target) := by
  induction h with
  | done => exact hplace rfl
  | here hdirectory _ _ ih => exact ih fun _ => not_link_of_hasDirectory hdirectory
  | up hdirectory _ ih =>
      rcases hdirectory with ⟨here, hat, hdirectory⟩
      exact ih fun _ => not_link_of_hasDirectory (Entry.at?_dropLast hat hdirectory)
  | down _ _ hnext hplain _ ih =>
      refine ih fun _ target hlink => ?_
      rw [hnext] at hlink
      exact hplain target (Option.some.inj hlink)
  | link _ _ _ _ _ _ ih =>
      refine ih fun hnone => ?_
      simp [Path.pieces_ne_nil] at hnone
  | stop _ _ _ hunfollowed _ => cases hunfollowed

end Locate

/-!
# Entries
-/

/-- The place at which the lookup of a path starts. -/
def startOf (t : FileTree) (p : Path) : List String :=
  if p.isAbsolute then [] else t.working

section Entry

variable {t : FileTree} {follow : Bool} {p : Path} {place : List String} {e : Entry}

theorem entry_eq_ok_iff :
    t.entry follow p = .ok (place, e) <->
      t.resolve follow p = .ok place ∧ t.top.at? place = some e := by
  unfold entry
  cases t.resolve follow p with
  | error error => simp
  | ok found =>
      cases hat : t.top.at? found with
      | none =>
          simp only [hat, reduceCtorEq, Except.ok.injEq, false_iff, not_and]
          intro heq
          subst heq
          simp [hat]
      | some other =>
          simp only [hat, Except.ok.injEq, Prod.mk.injEq]
          refine and_congr_right ?_
          intro heq
          subst heq
          simp [hat]

theorem resolve_eq_ok_iff :
    t.resolve follow p = .ok place <->
      p.text ≠ "" ∧
        t.Leads follow place linkLimit (t.startOf p)
          ((Path.pieces p.text.toList).map String.ofList) := by
  unfold resolve
  by_cases htext : p.text = ""
  · simp [htext]
  · simp only [beq_iff_eq, ne_eq, htext, not_false_eq_true, true_and]
    exact ⟨leads_of_locate, locate_of_leads⟩

theorem entry_plain (h : t.entry true p = .ok (place, e)) : forall target, e ≠ .link target := by
  rcases entry_eq_ok_iff.mp h with ⟨hresolve, hat⟩
  rcases resolve_eq_ok_iff.mp hresolve with ⟨_, hleads⟩
  intro target heq
  subst heq
  refine not_link_of_leads hleads (fun hnone => ?_) target hat
  simp [Path.pieces_ne_nil] at hnone

theorem entry_followed (h : t.entry false p = .ok (place, e)) (hplain : forall target, e ≠ .link target) :
    t.entry true p = .ok (place, e) := by
  rcases entry_eq_ok_iff.mp h with ⟨hresolve, hat⟩
  rcases resolve_eq_ok_iff.mp hresolve with ⟨htext, hleads⟩
  exact entry_eq_ok_iff.mpr ⟨resolve_eq_ok_iff.mpr ⟨htext, leads_followed hleads hat hplain⟩, hat⟩

/-- An entry of a directory is found by its name behind the path of the directory. -/
theorem entry_join (htop : t.top.WellFormed) {entries : List (String × Entry)}
    (h : t.entry true p = .ok (place, .directory entries)) {name : String}
    (hmember : (name, e) ∈ entries) :
    t.entry false (p.join ⟨name⟩) = .ok (place ++ [name], e) := by
  rcases entry_eq_ok_iff.mp h with ⟨hresolve, hat⟩
  rcases resolve_eq_ok_iff.mp hresolve with ⟨htext, hleads⟩
  rcases Entry.wellFormed_directory_iff.mp (Entry.wellFormed_at? htop hat) with ⟨hnames, hdistinct, _⟩
  have hname : Path.IsName name := hnames (name, e) hmember
  have hnamed := Entry.named?_of_mem hdistinct hmember
  have hrelative := Path.isAbsolute_of_isName hname
  rcases Path.pieces_join htext hrelative with ⟨front, _, hfront, hjoin⟩
  rw [Path.pieces_of_isName hname] at hjoin
  have hplace : t.Leads true place linkLimit (t.startOf p) (front.map String.ofList) := by
    rcases hfront with hfront | hfront
    · rw [hfront] at hleads
      exact hleads
    · rw [hfront, List.map_append] at hleads
      exact leads_of_leads_snoc_empty hleads
  have hlonger := leads_snoc hplace hat hname hnamed
  refine entry_eq_ok_iff.mpr ⟨resolve_eq_ok_iff.mpr ⟨Path.text_join_ne htext hrelative, ?_⟩, ?_⟩
  · rw [hjoin, List.map_append, List.map_singleton, String.ofList_toList, startOf,
      Path.isAbsolute_join htext hrelative]
    exact hlonger
  · rw [Entry.at?_append hat, Entry.at?, hnamed]
    cases e <;> rfl

end Entry

/-!
# Canonical paths
-/

section Canonical

variable {t : FileTree} {follow : Bool} {links : Nat} {place todo found : List String}

theorem hasDirectory_of_leads (h : t.Leads follow found links place todo) (hne : todo ≠ []) :
    t.HasDirectory place := by
  cases h with
  | done => exact absurd rfl hne
  | here hdirectory _ _ => exact hdirectory
  | up hdirectory _ => exact hdirectory
  | down hdirectory _ _ _ _ => exact hdirectory
  | link hdirectory _ _ _ _ _ => exact hdirectory
  | stop hdirectory _ _ _ _ => exact hdirectory

theorem hasDirectory_top (h : t.HasDirectory place) : t.HasDirectory [] := by
  rcases h with ⟨here, hat, hdirectory⟩
  cases place with
  | nil => exact ⟨here, hat, hdirectory⟩
  | cons name rest =>
      cases htop : t.top with
      | file content => simp [htop, Entry.at?] at hat
      | link target => simp [htop, Entry.at?] at hat
      | directory entries => exact ⟨.directory entries, by rw [htop]; rfl, rfl⟩

/-- The names of a place lead to it from the top. -/
theorem leads_names (htop : t.top.WellFormed) (hdirectory : t.HasDirectory []) {e : Entry}
    (hat : t.top.at? place = some e) : t.Leads false place links [] ("" :: place) := by
  induction place using List.reverseRecOn generalizing e with
  | nil => exact .here hdirectory (Or.inl rfl) .done
  | append_singleton front name ih =>
      rcases Entry.named?_of_at?_concat hat with ⟨entries, hfront, hnamed⟩
      have hname := Entry.isName_of_at? htop hat name (by simp)
      exact leads_snoc (leads_followed (ih hfront) hfront (by simp)) hfront hname hnamed

theorem pieces_pathOf (hnames : forall name, name ∈ place -> Path.IsName name) (hne : place ≠ []) :
    (Path.pieces (pathOf place).text.toList).map String.ofList = "" :: place := by
  have htext : (pathOf place).text.toList =
      [] ++ '/' :: ['/'].intercalate (place.map String.toList) := by
    simp [pathOf, String.toList_intercalate]
  have hslash : forall piece, piece ∈ place.map String.toList -> '/' ∉ piece := by
    intro piece hpiece
    rcases List.mem_map.mp hpiece with ⟨name, hname, rfl⟩
    exact (hnames name hname).slashFree
  rw [htext, Path.pieces_append, Path.pieces_intercalate hslash (by simpa using hne)]
  simp [Path.pieces]

/-- There is something at the path of a place where there is something. -/
theorem entry_pathOf (htop : t.top.WellFormed) (hdirectory : t.HasDirectory []) {e : Entry}
    (hat : t.top.at? place = some e) : t.entry false (pathOf place) = .ok (place, e) := by
  have htext : (pathOf place).text ≠ "" := by simp [pathOf]
  have habsolute : t.startOf (pathOf place) = [] := by simp [startOf, pathOf, Path.isAbsolute]
  refine entry_eq_ok_iff.mpr ⟨resolve_eq_ok_iff.mpr ⟨htext, ?_⟩, hat⟩
  rw [habsolute]
  by_cases hne : place = []
  · subst hne
    exact .here hdirectory (Or.inl rfl) (.here hdirectory (Or.inl rfl) .done)
  · rw [pieces_pathOf (Entry.isName_of_at? htop hat) hne]
    exact leads_names htop hdirectory hat

theorem entry_of_canonical (htop : t.top.WellFormed) {p root : Path}
    (h : t.canonical p = .ok root) : exists found, t.entry false root = .ok found := by
  unfold canonical at h
  cases hentry : t.entry true p with
  | error e =>
      rw [hentry] at h
      cases h
  | ok found =>
      rw [hentry] at h
      cases h
      rcases entry_eq_ok_iff.mp hentry with ⟨hresolve, hat⟩
      rcases resolve_eq_ok_iff.mp hresolve with ⟨_, hleads⟩
      have hpieces : (Path.pieces p.text.toList).map String.ofList ≠ [] := by
        simp [Path.pieces_ne_nil]
      exact ⟨_, entry_pathOf htop (hasDirectory_top (hasDirectory_of_leads hleads hpieces)) hat⟩

end Canonical

end FileTree
end JsxUsage
