import JsxUsage.Proofs.PathLookups

/-!
# Writing files

A file that is written goes to one place of the tree, and nothing else of the
tree changes.  The path under which it was written leads to it afterwards, also
where there was nothing before, and also through links.
-/

namespace JsxUsage
namespace Entry

/-- An entry without what is below it. -/
inductive Node where
  | file (content : Content)
  | directory
  | link (target : Path)

def node : Entry -> Node
  | file content => .file content
  | directory _ => .directory
  | link target => .link target

/-- What is at a place. -/
def node? (e : Entry) (place : List String) : Option Node :=
  (e.at? place).map node

/-- A file, or nothing yet. -/
def IsFree (n : Option Node) : Prop :=
  forall found, n = some found -> exists content, found = .file content

theorem isFree_none : IsFree none := by
  intro found h
  cases h

theorem isFree_file (content : Content) : IsFree (some (.file content)) := by
  intro found h
  cases h
  exact ⟨content, rfl⟩

theorem named?_setNamed (name n : String) (e : Entry) (entries : List (String × Entry)) :
    named? n (setNamed name e entries) = if n = name then some e else named? n entries := by
  induction entries with
  | nil => grind [named?, setNamed]
  | cons first rest ih =>
      rcases first with ⟨m, old⟩
      grind [named?, setNamed]

theorem node?_cons (entries : List (String × Entry)) (name : String) (rest : List String) :
    (directory entries).node? (name :: rest) = (named? name entries).bind (node? · rest) := by
  rw [node?, at?]
  cases named? name entries with
  | none => rfl
  | some next => rfl

theorem exists_directory {e : Entry} (h : e.node = .directory) :
    exists entries, e = directory entries := by
  cases e with
  | file content => cases h
  | link target => cases h
  | directory entries => exact ⟨entries, rfl⟩

theorem exists_directory_of_cons {e : Entry} {name : String} {rest : List String} {n : Node}
    (h : e.node? (name :: rest) = some n) : exists entries, e = directory entries := by
  cases e with
  | file content => cases h
  | link target => cases h
  | directory entries => exact ⟨entries, rfl⟩

/-- Below a place that is free for a file there is nothing. -/
theorem node?_below_isFree {entries : List (String × Entry)} {name : String}
    (hfree : IsFree ((directory entries).node? [name])) (piece : String) (rest : List String) :
    (directory entries).node? (name :: piece :: rest) = none := by
  rw [node?_cons] at hfree ⊢
  cases hnamed : named? name entries with
  | none => rfl
  | some old =>
      rw [hnamed] at hfree
      rcases hfree old.node rfl with ⟨content, hcontent⟩
      cases old with
      | file content => rfl
      | directory entries => cases hcontent
      | link target => cases hcontent

theorem node?_setAt_name {entries : List (String × Entry)} {name : String} (content : Content)
    (hfree : IsFree ((directory entries).node? [name])) (other : List String) :
    ((directory entries).setAt [name] (.file content)).node? other =
      if other = [name] then some (.file content) else (directory entries).node? other := by
  cases other with
  | nil => rfl
  | cons n below =>
      rw [setAt, setAt, node?_cons, named?_setNamed]
      by_cases hn : n = name
      · subst hn
        rw [if_pos rfl]
        cases below with
        | nil =>
            rw [if_pos rfl]
            rfl
        | cons piece rest =>
            rw [if_neg (by simp), node?_below_isFree hfree]
            rfl
      · rw [if_neg hn, if_neg (by simp [hn]), node?_cons]

/-- Writing a file changes what is at its place, and nothing else. -/
theorem node?_setAt {e : Entry} {place : List String} {name : String} (content : Content)
    (hdirectory : e.node? place = some .directory) (hfree : IsFree (e.node? (place ++ [name])))
    (other : List String) :
    (e.setAt (place ++ [name]) (.file content)).node? other =
      if other = place ++ [name] then some (.file content) else e.node? other := by
  induction place generalizing e other with
  | nil =>
      rcases exists_directory (Option.some.inj hdirectory) with ⟨entries, rfl⟩
      exact node?_setAt_name content hfree other
  | cons first rest ih =>
      rcases exists_directory_of_cons hdirectory with ⟨entries, rfl⟩
      rw [node?_cons] at hdirectory
      rw [List.cons_append, node?_cons] at hfree
      cases hnamed : named? first entries with
      | none =>
          rw [hnamed] at hdirectory
          cases hdirectory
      | some inner =>
          rw [hnamed, Option.bind_some] at hdirectory hfree
          rw [List.cons_append, setAt, hnamed, Option.getD_some]
          cases other with
          | nil => rfl
          | cons n below =>
              rw [node?_cons, node?_cons, named?_setNamed]
              by_cases hn : n = first
              · subst hn
                rw [if_pos rfl, hnamed, Option.bind_some, Option.bind_some, ih hdirectory hfree]
                simp only [List.cons.injEq, true_and]
              · rw [if_neg hn, if_neg (by simp [hn])]

end Entry

namespace FileTree

open Entry

/-!
## The place of a file
-/

theorem hasDirectory_iff_node? {t : FileTree} {place : List String} :
    t.HasDirectory place <-> t.top.node? place = some .directory := by
  unfold HasDirectory node?
  constructor
  · intro h
    rcases h with ⟨here, hat, hdirectory⟩
    rw [hat]
    cases here with
    | directory entries => rfl
    | file content => cases hdirectory
    | link target => cases hdirectory
  · intro h
    rcases Option.map_eq_some_iff.mp h with ⟨here, hat, hnode⟩
    rcases exists_directory hnode with ⟨entries, rfl⟩
    exact ⟨_, hat, rfl⟩

theorem at?_of_node?_link {e : Entry} {place : List String} {target : Path}
    (h : e.node? place = some (.link target)) : e.at? place = some (.link target) := by
  rcases Option.map_eq_some_iff.mp h with ⟨here, hat, hnode⟩
  cases here with
  | directory entries => cases hnode
  | file content => cases hnode
  | link other =>
      cases hnode
      exact hat

/-- The tree `after` holds a file at the place, and what `t` holds everywhere else. -/
structure AddsFile (t after : FileTree) (dest : List String) : Prop where
  file : exists content, after.top.at? dest = some (.file content)
  frame : forall other, other ≠ dest -> after.top.node? other = t.top.node? other

section AddsFile

variable {t after : FileTree} {dest place : List String} (hadds : t.AddsFile after dest)
  (hfree : IsFree (t.top.node? dest))
include hadds hfree

/-- Directories and links are as they were, for the free place is none of them. -/
theorem node?_of_addsFile {n : Node} (hn : t.top.node? place = some n)
    (hnot : forall content, n ≠ .file content) : after.top.node? place = some n := by
  refine (hadds.frame place ?_).trans hn
  intro heq
  subst heq
  rcases hfree n hn with ⟨content, hcontent⟩
  exact hnot content hcontent

theorem hasDirectory_of_addsFile (h : t.HasDirectory place) : after.HasDirectory place := by
  rw [hasDirectory_iff_node?] at h ⊢
  exact node?_of_addsFile hadds hfree h (by simp)

end AddsFile

/-- A file may be written at the place `dest`, to which the pieces `todo` then lead. -/
structure LeadsToFile (t : FileTree) (dest : List String) (links : Nat)
    (place todo : List String) : Prop where
  free : IsFree (t.top.node? dest)
  parent : exists parent name, dest = parent ++ [name] ∧ t.HasDirectory parent
  leads : forall after, t.AddsFile after dest -> after.Leads true dest links place todo

/-- A step that leads on from a directory still leads on when the file is there. -/
theorem leadsToFile_step {t : FileTree} {links next : Nat} {dest place inner todo rest : List String}
    (h : t.LeadsToFile dest next inner rest) (hdirectory : t.HasDirectory place)
    (hstep : forall after, t.AddsFile after dest -> after.HasDirectory place ->
      after.Leads true dest next inner rest -> after.Leads true dest links place todo) :
    t.LeadsToFile dest links place todo := by
  refine ⟨h.free, h.parent, ?_⟩
  intro after hadds
  exact hstep after hadds (hasDirectory_of_addsFile hadds h.free hdirectory) (h.leads after hadds)

theorem leadsToFile_of_free {t : FileTree} {links : Nat} {place : List String} {piece : String}
    (hdirectory : t.HasDirectory place) (hname : piece ∉ ["", ".", ".."])
    (hfree : IsFree (t.top.node? (place ++ [piece]))) :
    t.LeadsToFile (place ++ [piece]) links place [piece] := by
  refine ⟨hfree, ⟨place, piece, rfl, hdirectory⟩, ?_⟩
  intro after hadds
  rcases hadds.file with ⟨content, hat⟩
  exact .down (hasDirectory_of_addsFile hadds hfree hdirectory) hname hat (by simp) .done

theorem leadsToFile_of_locateFile {t : FileTree} {links : Nat} {place todo dest : List String}
    (h : t.locateFile links place todo = .ok dest) : t.LeadsToFile dest links place todo := by
  fun_induction locateFile t links place todo with
  | case1 => cases h
  | case2 => cases h
  | case3 => cases h
  | case4 links place piece rest here hat hdirectory hsame ih =>
      refine leadsToFile_step (ih h) (hasDirectory_of_at? hat hdirectory) ?_
      intro after _ hhere hleads
      exact .here hhere (by simpa using hsame) hleads
  | case5 links place piece rest here hat hdirectory hsame hup ih =>
      rw [beq_iff_eq] at hup
      subst hup
      refine leadsToFile_step (ih h) (hasDirectory_of_at? hat hdirectory) ?_
      intro after _ hhere hleads
      exact .up hhere hleads
  | case6 => cases h
  | case7 links place piece rest here hat hdirectory hsame hup hslash next hnext hlast =>
      rw [List.isEmpty_iff] at hlast
      subst hlast
      rw [← Except.ok.inj h]
      refine leadsToFile_of_free (hasDirectory_of_at? hat hdirectory) (name_of_not_step hsame hup) ?_
      rw [node?, hnext]
      exact isFree_none
  | case8 => cases h
  | case9 links place piece rest here hat hdirectory hsame hup hslash next content hnext hlast =>
      rw [List.isEmpty_iff] at hlast
      subst hlast
      rw [← Except.ok.inj h]
      refine leadsToFile_of_free (hasDirectory_of_at? hat hdirectory) (name_of_not_step hsame hup) ?_
      rw [node?, hnext]
      exact isFree_file content
  | case10 => cases h
  | case11 links place piece rest here hat hdirectory hsame hup hslash next entries hnext ih =>
      refine leadsToFile_step (ih h) (hasDirectory_of_at? hat hdirectory) ?_
      intro after hadds hhere hleads
      have hinner := hasDirectory_of_addsFile hadds (ih h).free ⟨_, hnext, rfl⟩
      have hplain := not_link_of_hasDirectory hinner
      rcases hinner with ⟨e, he, _⟩
      refine .down hhere (name_of_not_step hsame hup) he ?_ hleads
      intro target htarget
      rw [htarget] at he
      exact hplain target he
  | case12 => cases h
  | case13 => cases h
  | case14 place piece rest here hat hdirectory hsame hup hslash next target hnext links start
      pieces htext ih =>
      rw [beq_iff_eq] at htext
      refine leadsToFile_step (ih h) (hasDirectory_of_at? hat hdirectory) ?_
      intro after hadds hhere hleads
      have hlink : t.top.node? next = some (.link target) := by
        rw [node?, hnext]
        rfl
      have hthere := at?_of_node?_link (node?_of_addsFile hadds (ih h).free hlink (by simp))
      exact .link hhere (name_of_not_step hsame hup) hthere (Or.inr rfl) htext hleads

/-!
## The written file
-/

theorem leadsToFile_of_filePlace {t : FileTree} {p : Path} {place : List String}
    (h : t.filePlace p = .ok place) :
    p.text ≠ "" ∧ t.LeadsToFile place linkLimit (t.startOf p)
      ((Path.pieces p.text.toList).map String.ofList) := by
  unfold filePlace at h
  split at h
  · cases h
  · next htext => exact ⟨by simpa using htext, leadsToFile_of_locateFile h⟩

/-- A text that is written is at its place, and the rest of the tree stays. -/
theorem node?_writeText {t after : FileTree} {p : Path} {s : String}
    (h : t.writeText p s = .ok after) :
    exists place, t.filePlace p = .ok place ∧ after.working = t.working ∧
      forall other, after.top.node? other =
        if other = place then some (.file (.text s)) else t.top.node? other := by
  unfold writeText at h
  cases hplace : t.filePlace p with
  | error e =>
      rw [hplace] at h
      cases h
  | ok place =>
      rw [hplace] at h
      cases h
      rcases (leadsToFile_of_filePlace hplace).right with
        ⟨hfree, ⟨parent, name, rfl, hparent⟩, _⟩
      exact ⟨parent ++ [name], rfl, rfl,
        node?_setAt _ (hasDirectory_iff_node?.mp hparent) hfree⟩

/-- A text that is written can be read. -/
theorem readText_writeText {t after : FileTree} {p : Path} {s : String}
    (h : t.writeText p s = .ok after) : after.readText p = .ok s := by
  rcases node?_writeText h with ⟨place, hplace, hworking, hafter⟩
  rcases leadsToFile_of_filePlace hplace with ⟨htext, hleads⟩
  have hnode : after.top.node? place = some (.file (.text s)) := by
    rw [hafter, if_pos rfl]
  rcases Option.map_eq_some_iff.mp hnode with ⟨found, hat, hfound⟩
  cases found with
  | directory entries => cases hfound
  | link target => cases hfound
  | file content =>
      cases hfound
      have hadds : t.AddsFile after place :=
        ⟨⟨_, hat⟩, fun other hother => (hafter other).trans (if_neg hother)⟩
      have hstart : after.startOf p = t.startOf p := by rw [startOf, startOf, hworking]
      have hresolve : after.resolve true p = .ok place := by
        rw [resolve_eq_ok_iff, hstart]
        exact ⟨htext, hleads.leads after hadds⟩
      rw [readText, entry_eq_ok_iff.mpr ⟨hresolve, hat⟩]

end FileTree
end JsxUsage
