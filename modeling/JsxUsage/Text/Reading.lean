/-!
# Reading a text from left to right

A reading takes a point of the text and either ends with a value at a later
point, or is stuck.  Alternatives are tried in order from the same point.  The
deepest mark at which any reading was stuck travels along: it is the place
that a message about the text should name.
-/

namespace JsxUsage
namespace Text

/-- A place in the text: characters passed, and line counted from one. -/
structure Mark where
  offset : Nat
  line : Nat
deriving Repr, DecidableEq, Inhabited

/-- The later one of two marks; the first of two equal ones. -/
def Mark.later (a b : Mark) : Mark :=
  if a.offset < b.offset then b else a

structure Point where
  rest : List Char
  offset : Nat
  line : Nat
  bound : Nat
  deepest : Mark

namespace Point

def first (text : List Char) : Point :=
  ⟨text, 0, 1, text.length, ⟨0, 1⟩⟩

def mark (p : Point) : Mark := ⟨p.offset, p.line⟩

def drop : Nat -> Point -> Point
  | 0, p => p
  | n + 1, p =>
      match p.rest with
      | [] => p
      | c :: rest =>
          drop n { p with
            rest := rest
            offset := p.offset + 1
            line := if c == '\n' then p.line + 1 else p.line }

def note (p : Point) (m : Mark) : Point :=
  { p with deepest := p.deepest.later m }

end Point

/-! ## Readings -/

inductive Reply (α : Type) where
  | done (value : α) (next : Point)
  | stuck (deepest : Mark)

def Reading (α : Type) : Type := Point -> Reply α

namespace Reading

variable {α β : Type}

def run (r : Reading α) (p : Point) : Reply α := r p

instance : Monad Reading where
  pure a := fun p => .done a p
  bind r f := fun p =>
    match r p with
    | .done a next => f a next
    | .stuck m => .stuck m

def fail : Reading α := fun p => .stuck (p.deepest.later p.mark)

def either (r : Reading α) (s : Unit -> Reading α) : Reading α := fun p =>
  match r p with
  | .done a next => .done a next
  | .stuck m => s () (p.note m)

instance : OrElse (Reading α) where
  orElse := either

/-! ## Parts of readings -/

def point : Reading Point := fun p => .done p p

def holds (r : Reading Bool) (p : Point) : Bool :=
  match r p with
  | .done answer _ => answer
  | .stuck _ => false

def advance (n : Nat) : Reading Unit := fun p => .done () (p.drop n)

/-- Go on only if `b` holds. -/
def guard (b : Bool) : Reading Unit :=
  if b then pure () else fail

def optional (r : Reading α) : Reading (Option α) :=
  (some <$> r) <|> pure none

/-- Whether `r` can be read here.  Nothing is passed. -/
def ahead (r : Reading α) : Reading Bool := fun p =>
  match r p with
  | .done _ _ => .done true p
  | .stuck _ => .done false p

def manyUpTo (r : Reading α) : Nat -> Reading (List α)
  | 0 => pure []
  | budget + 1 => fun p =>
      match r p with
      | .stuck m => .done [] (p.note m)
      | .done a next =>
          if next.offset == p.offset then .done [] p
          else
            match manyUpTo r budget next with
            | .done as last => .done (a :: as) last
            | .stuck m => .stuck m

def many (r : Reading α) : Reading (List α) := fun p =>
  manyUpTo r p.bound p

def sepBy1 (r : Reading α) (sep : Reading β) : Reading (List α) := do
  let a ← r
  let as ← many (do let _ ← sep; r)
  return a :: as

end Reading
end Text
end JsxUsage
