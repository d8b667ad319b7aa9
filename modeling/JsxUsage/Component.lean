import JsxUsage.Path
import JsxUsage.Source.Declaration

/-!
# Components

A component is named by the file that defines it together with its own name.
-/

namespace JsxUsage

structure ComponentId where
  file : Path
  name : String
deriving Repr, Inhabited

namespace ComponentId

/-- What two spellings of one component share. -/
def key (id : ComponentId) : List Part × String :=
  (id.file.parts, id.name)

instance : BEq ComponentId where
  beq a b := a.key == b.key

theorem beq_iff_key {a b : ComponentId} : (a == b) = true <-> a.key = b.key := by
  show (a.key == b.key) = true <-> a.key = b.key
  simp

instance : EquivBEq ComponentId where
  rfl := beq_iff_key.mpr rfl
  symm h := beq_iff_key.mpr (beq_iff_key.mp h).symm
  trans h1 h2 := beq_iff_key.mpr ((beq_iff_key.mp h1).trans (beq_iff_key.mp h2))

theorem name_eq_of_beq {c d : ComponentId} (h : (c == d) = true) : c.name = d.name :=
  congrArg Prod.snd (beq_iff_key.mp h)

/-- The order of components: by file, then by name. -/
def compare (a b : ComponentId) : Ordering :=
  (a.file.compare b.file).then (Ord.compare a.name b.name)

def le (a b : ComponentId) : Bool := (a.compare b).isLE

def compareLists : List ComponentId -> List ComponentId -> Ordering
  | [], [] => .eq
  | [], _ :: _ => .lt
  | _ :: _, [] => .gt
  | a :: as, b :: bs => (a.compare b).then (compareLists as bs)

/-- The text of an identifier: the name, and the file in parentheses. -/
def text (id : ComponentId) : String :=
  id.name ++ " (" ++ id.file.text ++ ")"

end ComponentId

structure Definition where
  id : ComponentId
  kind : DeclarationKind
  line : Nat
deriving Repr, Inhabited

namespace Definition

def name (d : Definition) : String := d.id.name

def file (d : Definition) : Path := d.id.file

def ofDeclaration (file : Path) (d : Declaration) : Definition :=
  ⟨⟨file, d.name⟩, d.kind, d.line⟩

end Definition
end JsxUsage
