namespace Fairway

/-- How a table came about, which decides what may still be added to it: by a header of its own, by a
longer header that passes through it, by a dotted key, or in braces. -/
inductive Toml.Origin where
  | header
  | passed
  | dotted
  | braces
  deriving DecidableEq

/-- A TOML value. Dates and numbers with a fraction are told apart from other values, but no setting
takes one. `tables` holds the entries of each table of a double header. -/
inductive Toml where
  | text (value : String)
  | integer (value : Int)
  | boolean (value : Bool)
  | fractional
  | moment
  | array (items : List Toml)
  | table (origin : Toml.Origin) (entries : List (String × Toml))
  | tables (items : List (List (String × Toml)))

namespace Toml

abbrev Entries := List (String × Toml)

/-- A path of names, the last one apart. -/
abbrev Path := List String

def replace (name : String) (value : Toml) (entries : Entries) : Entries :=
  entries.map fun (n, v) => if n == name then (n, value) else (n, v)

/-- Names are given once. -/
def add (name : String) (value : Toml) (entries : Entries) : Option Entries :=
  if (entries.lookup name).isSome then none else some (entries ++ [(name, value)])

/-- Headers walk through every table but those in braces. Dotted keys leave tables with a header alone. -/
inductive Way where
  | header
  | dotted
  deriving DecidableEq

/-- What a table is that comes into being on the way. -/
def Way.fresh : Way → Origin
  | .header => .passed
  | .dotted => .dotted

def Way.passes : Way → Origin → Bool
  | .header, origin => origin != .braces
  | .dotted, origin => origin == .passed || origin == .dotted

/-- Changes the table at the end of a path, seen from a table of the given origin. The last table of a
double header stands for all of them. -/
def alter (way : Way) (change : Origin → Entries → Option Entries) :
    Path → Origin → Entries → Option Entries
  | [], origin, entries => change origin entries
  | name :: path, _, entries =>
    match entries.lookup name with
    | none =>
      (alter way change path way.fresh []).map fun inner =>
        entries ++ [(name, .table way.fresh inner)]
    | some (.table origin inner) =>
      if way.passes origin then
        (alter way change path origin inner).map fun inner =>
          replace name (.table origin inner) entries
      else none
    | some (.tables items) =>
      match items.getLast? with
      | none => none
      | some last =>
        (alter way change path .header last).map fun last =>
          replace name (.tables (items.dropLast ++ [last])) entries
    | some _ => none

/-- Sets a possibly dotted key. Behind a dot it has to end in a table that dots have made. -/
def assign (path : Path) (name : String) (value : Toml) (origin : Origin) (entries : Entries) :
    Option Entries :=
  alter .dotted (fun reached inner =>
    if path.isEmpty || reached == .dotted then add name value inner else none) path origin entries

/-- Opens a table by its header. Only one that has been passed through so far may be there already. -/
def openTable (path : Path) (name : String) (entries : Entries) : Option Entries :=
  alter .header (fun _ inner =>
    match inner.lookup name with
    | none => some (inner ++ [(name, .table .header [])])
    | some (.table .passed found) => some (replace name (.table .header found) inner)
    | some _ => none) path .header entries

/-- Opens one more table of a double header. -/
def openNext (path : Path) (name : String) (entries : Entries) : Option Entries :=
  alter .header (fun _ inner =>
    match inner.lookup name with
    | none => some (inner ++ [(name, .tables [[]])])
    | some (.tables items) => some (replace name (.tables (items ++ [[]])) inner)
    | some _ => none) path .header entries

end Toml

end Fairway
