import JsxUsage.TreeDocument
import JsxUsage.Proofs.JsonReading
import JsxUsage.Proofs.PathParts
import JsxUsage.Proofs.TreeWalks

/-!
# Reading tree documents

The text of a tree's document is well-formed and stands for one value only: the
root, its file, and an entry for each node in their order.  A file is shown as
what is left of it behind the base path, or whole where the base is not its
start, with slashes in the place of backslashes.
-/

namespace JsxUsage
namespace TreeDocument

/-!
# Files
-/

/-- What is left of a file behind a base. -/
inductive Stripped (base : Option Path) (file : Path) : Path -> Prop where
  | whole (hstart : forall b : Path, base = some b -> ¬ b.parts <+: file.parts) :
      Stripped base file file
  | behind {b shown : Path} (hbase : base = some b) (hparts : file.parts = b.parts ++ shown.parts)
      (hinside : shown.text.toList <:+: file.text.toList) : Stripped base file shown

/-- The text shows what is left of the file, with slashes for backslashes. -/
inductive Shows (base : Option Path) (file : Path) (text : String) : Prop where
  | slashed {shown : Path} (hstripped : Stripped base file shown)
      (htext : text.toList = shown.text.toList.map fun c => if c = '\\' then '/' else c) :
      Shows base file text

theorem stripped_stripStart? (base : Option Path) (file : Path) :
    Stripped base file ((base.bind file.stripStart?).getD file) := by
  cases base with
  | none =>
      refine .whole ?_
      intro b h
      cases h
  | some b =>
      rw [Option.bind_some]
      cases hstrip : file.stripStart? b with
      | none =>
          refine .whole ?_
          intro _ h
          cases h
          exact Path.stripStart?_eq_none_iff.mp hstrip
      | some shown =>
          rcases Path.stripStart?_eq_some hstrip with ⟨hparts, hinside⟩
          exact .behind rfl hparts hinside

theorem shows_fileText (base : Option Path) (file : Path) : Shows base file (fileText base file) := by
  refine .slashed (stripped_stripStart? base file) ?_
  simp [fileText]

/-!
# Documents
-/

open ComponentTree (buildFrom)

theorem write_reads_back (a : Adjacency) (maxDepth : Nat) (root : ComponentId)
    (base : Option Path) :
    exists (rootFile : String) (entries : List Json) (doc : Json),
      doc = .object [("root", .string root.name), ("root_file", .string rootFile),
        ("nodes", .array entries)] ∧
      (forall v, Json.Document (write (buildFrom a maxDepth root) base) v <-> v = doc) ∧
      Json.ofText? (write (buildFrom a maxDepth root) base) = some doc ∧
      Shows base root.file rootFile ∧
      entries.length = (buildFrom a maxDepth root).nodes.size ∧
      forall (i : Nat) (n : TreeNode), (buildFrom a maxDepth root).nodes[i]? = some n ->
        exists file : String, Shows base n.component.file file ∧
          entries[i]? = some (.object [("id", .string ("c" ++ toString (i + 1))),
            ("name", .string n.component.name),
            ("parent", .string ((buildFrom a maxDepth root).parentRef n)),
            ("file", .string file), ("depth", .number n.depth)]) := by
  have hroot := ComponentTree.root_buildFrom a maxDepth root
  have hnumbered := ComponentTree.numbered_buildFrom a maxDepth root
  generalize buildFrom a maxDepth root = t at hroot hnumbered ⊢
  subst hroot
  refine ⟨fileText base t.root.file, t.nodes.toList.map (nodeJson t base), ofTree t base, rfl,
    fun v => Json.document_pretty_iff, Json.ofText?_of_document (Json.document_pretty _),
    shows_fileText base t.root.file, by simp, ?_⟩
  intro i n hn
  refine ⟨fileText base n.component.file, shows_fileText base n.component.file, ?_⟩
  have hentry : (t.nodes.toList.map (nodeJson t base))[i]? = some (nodeJson t base n) := by
    simp [hn]
  rw [hentry, nodeJson, hnumbered.id i n hn]
  rfl

end TreeDocument
end JsxUsage
