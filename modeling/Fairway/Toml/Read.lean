import Fairway.Toml.Number

namespace Fairway.Toml

/-- Arrays and braces may nest to this depth, and a key may have as many names. -/
def nestingLimit : Nat := 79

def isBare (c : Char) : Bool := c.isAlphanum || c == '-' || c == '_'

def readName : List Char → Option (String × List Char)
  | '"' :: rest => (readBasic rest).map fun (name, rest) => (String.ofList name, rest)
  | '\'' :: rest => (readLiteral rest).map fun (name, rest) => (String.ofList name, rest)
  | cs =>
    let name := cs.takeWhile isBare
    if name.isEmpty then none else some (String.ofList name, cs.dropWhile isBare)

/-- Names with dots between them, and blanks around each. -/
def readNames : Nat → List Char → Option (List String × List Char)
  | 0, _ => none
  | fuel + 1, cs =>
    match readName (skipGaps cs) with
    | none => none
    | some (name, rest) =>
      match skipGaps rest with
      | '.' :: rest => (readNames fuel rest).map fun (names, rest) => (name :: names, rest)
      | rest => some ([name], rest)

def readKey (cs : List Char) : Option (Path × String × List Char) := do
  let (names, rest) ← readNames nestingLimit cs
  let name ← names.getLast?
  return (names.dropLast, name, rest)

/-- What follows a line that holds nothing more than a comment. -/
def endLine (cs : List Char) : Option (List Char) :=
  let rest := match skipGaps cs with
    | '#' :: rest => rest.dropWhile isShown
    | rest => rest
  match rest with
  | [] => some []
  | rest => newline? rest

/-- The next item of an array, behind blanks, line ends and comments. A comment needs its line end. -/
def skipLines (comment : Bool) : List Char → Option (List Char)
  | [] => if comment then none else some []
  | '\n' :: rest => skipLines false rest
  | '\r' :: '\n' :: rest => skipLines false rest
  | '\r' :: _ => none
  | c :: rest =>
    if comment then
      if isShown c then skipLines true rest else none
    else if c == '#' then skipLines true rest
    else if isGap c then skipLines false rest
    else some (c :: rest)

def readLetters (letters : String) (value : Toml) (cs : List Char) : Option (Toml × List Char) :=
  (after? letters.toList cs).map (value, ·)

def ofPairs (pairs : List (Path × String × Toml)) : Option Toml :=
  (pairs.foldlM (fun entries (path, name, value) => assign path name value .braces entries) []).map
    (.table .braces)

mutual

/-- A value, with `room` for nested ones. -/
def readValue : Nat → Nat → List Char → Option (Toml × List Char)
  | 0, _, _ => none
  | fuel + 1, room, cs =>
    match cs with
    | '[' :: rest =>
      match room with
      | 0 => none
      | room + 1 =>
        match skipLines false rest with
        | some (']' :: rest) => some (.array [], rest)
        | some rest => (readItems fuel room rest).map fun (items, rest) => (.array items, rest)
        | none => none
    | '{' :: rest =>
      match room with
      | 0 => none
      | room + 1 =>
        match skipGaps rest with
        | '}' :: rest => some (.table .braces [], rest)
        | rest =>
          match readPairs fuel room rest with
          | some (pairs, rest) => (ofPairs pairs).map (·, rest)
          | none => none
    | 't' :: 'r' :: 'u' :: 'e' :: rest => some (.boolean true, rest)
    | 'f' :: 'a' :: 'l' :: 's' :: 'e' :: rest => some (.boolean false, rest)
    | cs =>
      if cs.head? == some '"' || cs.head? == some '\'' then
        (readQuoted cs).map fun (content, rest) => (.text (String.ofList content), rest)
      else readNumeric cs

/-- The items of an array that has one, up to its bracket. A comma may stand behind the last. -/
def readItems : Nat → Nat → List Char → Option (List Toml × List Char)
  | 0, _, _ => none
  | fuel + 1, room, cs =>
    match readValue fuel room cs with
    | none => none
    | some (item, rest) =>
      match skipLines false rest with
      | some (']' :: rest) => some ([item], rest)
      | some (',' :: rest) =>
        match skipLines false rest with
        | some (']' :: rest) => some ([item], rest)
        | some rest => (readItems fuel room rest).map fun (items, rest) => (item :: items, rest)
        | none => none
      | _ => none

/-- The pairs between braces, when there is one. They stand on one line, and no comma is behind the
last. -/
def readPairs : Nat → Nat → List Char → Option (List (Path × String × Toml) × List Char)
  | 0, _, _ => none
  | fuel + 1, room, cs =>
    match readKey cs with
    | some (path, name, '=' :: rest) =>
      match readValue fuel room (skipGaps rest) with
      | none => none
      | some (value, rest) =>
        match skipGaps rest with
        | ',' :: rest =>
          (readPairs fuel room rest).map fun (pairs, rest) => ((path, name, value) :: pairs, rest)
        | '}' :: rest => some ([(path, name, value)], rest)
        | _ => none
    | _ => none

end

/-- The document so far: its entries, and the table that the next keys belong to. -/
structure Draft where
  entries : Entries
  current : Path

/-- Adds what one line says; a value may take up further lines. -/
def readLine (draft : Draft) (cs : List Char) : Option (Draft × List Char) :=
  match skipGaps cs with
  | '[' :: '[' :: rest => do
    let (path, name, rest) ← readKey rest
    let rest ← (after? [']', ']'] rest).bind endLine
    let entries ← openNext path name draft.entries
    return (⟨entries, path ++ [name]⟩, rest)
  | '[' :: rest => do
    let (path, name, rest) ← readKey rest
    let rest ← (after? [']'] rest).bind endLine
    let entries ← openTable path name draft.entries
    return (⟨entries, path ++ [name]⟩, rest)
  | rest =>
    match endLine rest with
    | some rest => some (draft, rest)
    | none => do
      let (path, name, rest) ← readKey rest
      let rest ← after? ['='] rest
      let rest := skipGaps rest
      let (value, rest) ← readValue (2 * rest.length + 2) nestingLimit rest
      let rest ← endLine rest
      let entries ← alter .header (assign path name value) draft.current .header draft.entries
      return ({ draft with entries }, rest)

/-- Every line takes at least one character. -/
def readLines : Nat → Draft → List Char → Option Draft
  | _, draft, [] => some draft
  | 0, _, _ => none
  | fuel + 1, draft, cs =>
    match readLine draft cs with
    | some (draft, rest) => readLines fuel draft rest
    | none => none

/-- The entries of a document. A byte order mark in front of it is passed over. -/
def parse (s : String) : Option Entries :=
  let cs := match s.toList with
    | '\ufeff' :: rest => rest
    | cs => cs
  (readLines cs.length ⟨[], []⟩ cs).map Draft.entries

end Fairway.Toml
