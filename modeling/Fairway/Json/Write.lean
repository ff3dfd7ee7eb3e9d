import Fairway.Json.Syntax

namespace Fairway.Json

def quote (raw : Scanned) : Scanned := some '"' :: raw ++ [some '"']

def Number.write (n : Number) : List Char :=
  (if n.negative then ['-'] else []) ++ n.whole ++
    (match n.fraction with
      | none => []
      | some digits => '.' :: digits) ++
    (match n.exponent with
      | none => []
      | some (down, digits) => 'e' :: (if down then ['-'] else []) ++ digits)

mutual

def write : Json → Scanned
  | .null => ("null".toList).map some
  | .bool true => ("true".toList).map some
  | .bool false => ("false".toList).map some
  | .number n => n.write.map some
  | .string raw => quote raw
  | .array items => some '[' :: writeItems items ++ [some ']']
  | .object members => some '{' :: writeMembers members ++ [some '}']

def writeItems : List Json → Scanned
  | [] => []
  | [j] => write j
  | j :: rest => write j ++ some ',' :: writeItems rest

def writeMembers : List (Scanned × Json) → Scanned
  | [] => []
  | [(name, j)] => quote name ++ some ':' :: write j
  | (name, j) :: rest => quote name ++ some ':' :: write j ++ some ',' :: writeMembers rest

end

def text (cs : Scanned) : String := String.ofList (cs.filterMap id)

def render (j : Json) : String := text j.write

def newline (indent : Nat) : Scanned :=
  some '\n' :: List.replicate (2 * indent) (some ' ')

mutual

/-- The document with every item and member on a line of its own, two blanks deeper than its container. -/
def writePretty (indent : Nat) : Json → Scanned
  | .array [] => [some '[', some ']']
  | .object [] => [some '{', some '}']
  | .array items =>
    some '[' :: prettyItems (indent + 1) items ++ newline indent ++ [some ']']
  | .object members =>
    some '{' :: prettyMembers (indent + 1) members ++ newline indent ++ [some '}']
  | .null => write .null
  | .bool b => write (.bool b)
  | .number n => write (.number n)
  | .string raw => write (.string raw)

def prettyItems (indent : Nat) : List Json → Scanned
  | [] => []
  | [j] => newline indent ++ writePretty indent j
  | j :: rest => newline indent ++ writePretty indent j ++ some ',' :: prettyItems indent rest

def prettyMembers (indent : Nat) : List (Scanned × Json) → Scanned
  | [] => []
  | [(name, j)] => newline indent ++ quote name ++ some ':' :: some ' ' :: writePretty indent j
  | (name, j) :: rest =>
    newline indent ++ quote name ++ some ':' :: some ' ' :: writePretty indent j ++
      some ',' :: prettyMembers indent rest

end

def renderPretty (j : Json) : String := text (j.writePretty 0)

end Fairway.Json
