import JsxUsage.Source.Tag

/-!
# Declarations

The functions that a file declares at its top level, or directly behind an
export: functions with a name, and names that are bound to an arrow function.
A declaration is a component if it builds an element somewhere.
-/

namespace JsxUsage

open Syntax

inductive DeclarationKind where
  | function
  | arrowFunction
deriving Repr, DecidableEq, Inhabited

def DeclarationKind.word : DeclarationKind -> String
  | function => "function"
  | arrowFunction => "arrow_function"

structure Declaration where
  name : String
  kind : DeclarationKind
  line : Nat
  hasElement : Bool
  tags : List String
deriving Repr, DecidableEq, Inhabited

namespace Declaration

def isComponent (d : Declaration) : Bool := d.hasElement

def ofNode (name : String) (kind : DeclarationKind) (n : Node) : Declaration :=
  ⟨name, kind, n.line, n.hasElement, n.tags⟩

def ofFunction (n : Node) : List Declaration :=
  match n.child? .name with
  | some name => [ofNode name.text .function n]
  | none => []

/-- The declaration that a declarator makes, if it binds a single name to an
arrow function. -/
def ofDeclarator (n : Node) : List Declaration :=
  match n.kind, n.child? .name, n.child? .value with
  | .variableDeclarator, some name, some value =>
      if name.kind == .identifier && value.kind == .arrowFunction then
        [ofNode name.text .arrowFunction n]
      else []
  | _, _, _ => []

mutual

def ofStatement : Node -> List Declaration
  | .node l cs =>
      match l.kind with
      | .functionDeclaration => ofFunction (.node l cs)
      | .lexicalDeclaration => cs.flatMap ofDeclarator
      | .variableDeclaration => cs.flatMap ofDeclarator
      | .exportStatement => ofExported cs
      | _ => []

def ofExported : List Node -> List Declaration
  | [] => []
  | c :: cs =>
      (if c.kind == .functionExpression then ofFunction c else ofStatement c) ++ ofExported cs

end

def ofProgram (program : Node) : List Declaration :=
  program.children.flatMap ofStatement

end Declaration
end JsxUsage
