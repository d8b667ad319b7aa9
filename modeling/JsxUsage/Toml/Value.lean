/-!
# TOML values

The values of TOML documents.  A table remembers how it came to be, because that
decides which later lines may add to it.
-/

namespace JsxUsage
namespace Toml

inductive Origin where
  | inline
  | header
  | implied
  | dotted
deriving Repr, DecidableEq, Inhabited

/-- A value.  Of numbers with a fraction and of dates only the text is kept. -/
inductive Value where
  | string (s : String)
  | integer (n : Int)
  | float (text : String)
  | boolean (b : Bool)
  | datetime (text : String)
  | array (items : List Value)
  | table (origin : Origin) (entries : List (String × Value))
  | tables (list : List (List (String × Value)))
deriving Inhabited

abbrev Entries := List (String × Value)

/-! ## Tables -/

namespace Entries

def get? (key : String) : Entries -> Option Value
  | [] => none
  | (k, v) :: rest => if k == key then some v else get? key rest

/-- Set the value of a key; a new key comes last. -/
def put (key : String) (value : Value) : Entries -> Entries
  | [] => [(key, value)]
  | (k, v) :: rest => if k == key then (k, value) :: rest else (k, v) :: put key value rest

def add (key : String) (value : Value) (entries : Entries) : Option Entries :=
  match get? key entries with
  | none => some (put key value entries)
  | some _ => none

/-- Change the table to which a path of keys leads from the table `entries`,
which is of the given origin.  Tables that are missing on the way are made, as
tables of a dotted key if `dotted` holds and as implied ones else.  A dotted key
does not pass through the table of a header, and no path passes through a
value. -/
def within (dotted : Bool) (change : Origin -> Entries -> Option Entries) :
    (path : List String) -> Origin -> Entries -> Option Entries
  | [], origin, entries => change origin entries
  | key :: path, _, entries =>
      match get? key entries with
      | none =>
          let origin := if dotted then Origin.dotted else Origin.implied
          (within dotted change path origin []).map fun inner =>
            put key (.table origin inner) entries
      | some (.table origin inner) =>
          if origin == .inline || (dotted && origin == .header) then none
          else
            (within dotted change path origin inner).map fun inner =>
              put key (.table origin inner) entries
      | some (.tables list) =>
          match list.getLast? with
          | none => none
          | some last =>
              (within dotted change path .header last).map fun last =>
                put key (.tables (list.dropLast ++ [last])) entries
      | some _ => none

/-- Set the value of a key that may have dots.  The table of a dotted key must
have been made by dotted keys alone. -/
def assign (path : List String) (value : Value) (entries : Entries) : Option Entries :=
  match path.getLast? with
  | none => none
  | some key =>
      within true (fun origin inner =>
        if (origin == .dotted) == path.dropLast.isEmpty then none else add key value inner)
        path.dropLast .header entries

/-- Open the table of a header.  Only an implied table may be there already. -/
def openTable (path : List String) (entries : Entries) : Option Entries :=
  match path.getLast? with
  | none => none
  | some key =>
      within false (fun _ inner =>
        match get? key inner with
        | none => some (put key (.table .header []) inner)
        | some (.table .implied below) => some (put key (.table .header below) inner)
        | some _ => none) path.dropLast .header entries

def openTables (path : List String) (entries : Entries) : Option Entries :=
  match path.getLast? with
  | none => none
  | some key =>
      within false (fun _ inner =>
        match get? key inner with
        | none => some (put key (.tables [[]]) inner)
        | some (.tables list) => some (put key (.tables (list ++ [[]])) inner)
        | some _ => none) path.dropLast .header entries

end Entries
end Toml
end JsxUsage
