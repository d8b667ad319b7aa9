/-!
# Options of a command line

How a list of arguments is split into options with their values and plain
arguments.

A long option stands behind two hyphens, and its value behind an equals sign or
in the next argument.  Short options stand behind one hyphen, several flags
together if wanted; the rest of the argument, with or without an equals sign, is
the value of an option that takes one.  Two hyphens alone end the options.
-/

namespace JsxUsage
namespace CommandLine

inductive Arity where
  | flag
  | single
  | repeated
  | help
  | version
deriving Repr, DecidableEq, Inhabited

structure OptionSpec where
  long : String
  short : Option Char
  arity : Arity
  accepts : String -> Bool

inductive Stop where
  | usage
  | help
  | version
deriving Repr, DecidableEq, Inhabited

structure Scan where
  /-- The options with their values, in order; flags have an empty value. -/
  options : List (String × String)
  plain : List String
  waiting : Option OptionSpec

namespace Scan

def empty : Scan := ⟨[], [], none⟩

def has (s : Scan) (long : String) : Bool :=
  s.options.any fun (name, _) => name == long

def values (s : Scan) (long : String) : List String :=
  s.options.filterMap fun (name, value) => if name == long then some value else none

/-- The value of an option that is given at most once. -/
def value? (s : Scan) (long : String) : Option String :=
  (s.values long).head?

def add (s : Scan) (spec : OptionSpec) (value : String) : Except Stop Scan :=
  if spec.arity != .repeated && s.has spec.long then .error .usage
  else if !spec.accepts value then .error .usage
  else .ok { s with options := s.options ++ [(spec.long, value)], waiting := none }

def addValued (s : Scan) (spec : OptionSpec) (attached : Option String) : Except Stop Scan :=
  match attached with
  | some value => s.add spec value
  | none => .ok { s with waiting := some spec }

def addPlain (s : Scan) (spec : OptionSpec) : Except Stop Scan :=
  match spec.arity with
  | .help => .error .help
  | .version => .error .version
  | _ => s.add spec ""

def takesValue (spec : OptionSpec) : Bool :=
  spec.arity == .single || spec.arity == .repeated

end Scan

/-!
## Options

An option is written with its name behind two hyphens, or as one of several letters
behind one hyphen.  A value is attached to it or is the next argument.
-/

def splitValue (cs : List Char) : String × Option String :=
  let name := cs.takeWhile (· != '=')
  match cs.drop name.length with
  | [] => (String.ofList name, none)
  | _ :: value => (String.ofList name, some (String.ofList value))

def scanLong (specs : List OptionSpec) (s : Scan) (cs : List Char) : Except Stop Scan :=
  let (name, attached) := splitValue cs
  match specs.find? fun spec => spec.long == name with
  | none => .error .usage
  | some spec =>
      if Scan.takesValue spec then s.addValued spec attached
      else if attached.isSome then .error .usage
      else s.addPlain spec

def attachedValue : List Char -> Option String
  | [] => none
  | '=' :: rest => some (String.ofList rest)
  | rest => some (String.ofList rest)

def scanShort (specs : List OptionSpec) (s : Scan) : List Char -> Except Stop Scan
  | [] => .ok s
  | c :: rest =>
      match specs.find? fun spec => spec.short == some c with
      | none => .error .usage
      | some spec =>
          if Scan.takesValue spec then s.addValued spec (attachedValue rest)
          else
            match s.addPlain spec with
            | .error stop => .error stop
            | .ok s => scanShort specs s rest

/-! ## Whole lists of arguments -/

inductive Shape where
  | plain
  | endOfOptions
  | long (cs : List Char)
  | short (cs : List Char)
deriving Repr, DecidableEq, Inhabited

/-- The shape of an argument.  A hyphen alone is plain. -/
def Shape.of (arg : String) : Shape :=
  match arg.toList with
  | ['-', '-'] => .endOfOptions
  | '-' :: '-' :: rest => .long rest
  | '-' :: c :: rest => .short (c :: rest)
  | _ => .plain

structure Form where
  options : List OptionSpec
  room : Nat
  acceptsPlain : String -> Bool
  ends : String -> Bool

def Scan.addArgument (form : Form) (s : Scan) (arg : String) : Except Stop Scan :=
  if s.plain.length < form.room && form.acceptsPlain arg then
    .ok { s with plain := s.plain ++ [arg] }
  else .error .usage

def Scan.addArguments (form : Form) (s : Scan) : List String -> Except Stop Scan
  | [] => .ok s
  | arg :: rest =>
      match s.addArgument form arg with
      | .error stop => .error stop
      | .ok s => s.addArguments form rest

/-- Read arguments up to a plain one that ends the reading.  The result holds what
was read, and that argument with those behind it. -/
def scan (form : Form) (s : Scan) : List String -> Except Stop (Scan × List String)
  | [] => if s.waiting.isSome then .error .usage else .ok (s, [])
  | arg :: rest =>
      match s.waiting, Shape.of arg with
      | some spec, .plain =>
          match s.add spec arg with
          | .error stop => .error stop
          | .ok s => scan form s rest
      | some _, _ => .error .usage
      | none, .plain =>
          if form.ends arg then .ok (s, arg :: rest)
          else
            match s.addArgument form arg with
            | .error stop => .error stop
            | .ok s => scan form s rest
      | none, .endOfOptions => (s.addArguments form rest).map fun s => (s, [])
      | none, .long cs =>
          match scanLong form.options s cs with
          | .error stop => .error stop
          | .ok s => scan form s rest
      | none, .short cs =>
          match scanShort form.options s cs with
          | .error stop => .error stop
          | .ok s => scan form s rest

end CommandLine
end JsxUsage
