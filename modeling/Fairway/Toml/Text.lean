import Fairway.Text.Decimal
import Fairway.Text.Split

namespace Fairway.Toml

/-- The four ways to write a text between quotes. -/
inductive Quotation where
  | basic
  | literal
  | basicLines
  | literalLines
  deriving DecidableEq

/-- Whether a character can stand as it is: a tab, or no control. -/
def isShown (c : Char) : Bool := c == '\t' || (0x20 ≤ c.toNat && c.toNat != 0x7f)

def isGap (c : Char) : Bool := c == ' ' || c == '\t'

def skipGaps (cs : List Char) : List Char := cs.dropWhile isGap

/-- What follows a line end, when there is one. -/
def newline? : List Char → Option (List Char)
  | '\n' :: rest => some rest
  | '\r' :: '\n' :: rest => some rest
  | _ => none

def escapes : List (Char × Char) :=
  [('b', '\x08'), ('t', '\t'), ('n', '\n'), ('f', '\x0c'), ('r', '\r'), ('"', '"'), ('\\', '\\')]

/-- The character that hexadecimal digits name. Surrogates are no characters. -/
def namedChar? (digits : List Char) : Option Char := do
  let values ← digits.mapM hexDigit?
  let n := values.foldl (fun acc d => 16 * acc + d) 0
  if n < 0xd800 ∨ (0xe000 ≤ n ∧ n < 0x110000) then some (Char.ofNat n) else none

def push (c : Char) (read : Option (List Char × List Char)) : Option (List Char × List Char) :=
  read.map fun (cs, rest) => (c :: cs, rest)

/-- A text up to its double quote, on one line. -/
def readBasic : List Char → Option (List Char × List Char)
  | [] => none
  | '"' :: rest => some ([], rest)
  | '\\' :: 'u' :: a :: b :: c :: d :: rest =>
    match namedChar? [a, b, c, d] with
    | some named => push named (readBasic rest)
    | none => none
  | '\\' :: 'U' :: a :: b :: c :: d :: e :: f :: g :: h :: rest =>
    match namedChar? [a, b, c, d, e, f, g, h] with
    | some named => push named (readBasic rest)
    | none => none
  | '\\' :: letter :: rest =>
    match escapes.lookup letter with
    | some c => push c (readBasic rest)
    | none => none
  | c :: rest => if isShown c && c != '\\' then push c (readBasic rest) else none

/-- A text up to its single quote, on one line and without escapes. -/
def readLiteral : List Char → Option (List Char × List Char)
  | [] => none
  | '\'' :: rest => some ([], rest)
  | c :: rest => if isShown c then push c (readLiteral rest) else none

/-- A text up to three double quotes. One or two quotes right before these belong to the text. With
`fold` set, the line was broken by a backslash, and all blanks and line ends up to the next character
are passed over. -/
def readBasicLines (fold : Bool) : List Char → Option (List Char × List Char)
  | [] => none
  | '"' :: '"' :: '"' :: '"' :: '"' :: rest => some (['"', '"'], rest)
  | '"' :: '"' :: '"' :: '"' :: rest => some (['"'], rest)
  | '"' :: '"' :: '"' :: rest => some ([], rest)
  | '\\' :: 'u' :: a :: b :: c :: d :: rest =>
    match namedChar? [a, b, c, d] with
    | some named => push named (readBasicLines false rest)
    | none => none
  | '\\' :: 'U' :: a :: b :: c :: d :: e :: f :: g :: h :: rest =>
    match namedChar? [a, b, c, d, e, f, g, h] with
    | some named => push named (readBasicLines false rest)
    | none => none
  | '\\' :: letter :: rest =>
    match escapes.lookup letter with
    | some c => push c (readBasicLines false rest)
    | none =>
      if (newline? (skipGaps (letter :: rest))).isSome then readBasicLines true (letter :: rest)
      else none
  | '\r' :: '\n' :: rest =>
    if fold then readBasicLines true rest else push '\n' (readBasicLines false rest)
  | c :: rest =>
    if fold && (isGap c || c == '\n') then readBasicLines true rest
    else if c == '\n' || (isShown c && c != '\\') then push c (readBasicLines false rest)
    else none

/-- A text up to three single quotes, without escapes. One or two quotes right before these belong to
the text. -/
def readLiteralLines : List Char → Option (List Char × List Char)
  | [] => none
  | '\'' :: '\'' :: '\'' :: '\'' :: '\'' :: rest => some (['\'', '\''], rest)
  | '\'' :: '\'' :: '\'' :: '\'' :: rest => some (['\''], rest)
  | '\'' :: '\'' :: '\'' :: rest => some ([], rest)
  | '\r' :: '\n' :: rest => push '\n' (readLiteralLines rest)
  | c :: rest => if c == '\n' || isShown c then push c (readLiteralLines rest) else none

/-- A text with its quotes. A line end right after three quotes is not part of the text. -/
def readQuoted : List Char → Option (List Char × List Char)
  | '"' :: '"' :: '"' :: rest => readBasicLines false ((newline? rest).getD rest)
  | '"' :: rest => readBasic rest
  | '\'' :: '\'' :: '\'' :: rest => readLiteralLines ((newline? rest).getD rest)
  | '\'' :: rest => readLiteral rest
  | _ => none

def longestRun (quote : Char) (cs : List Char) : Nat :=
  (cs.foldl (fun (run, best) c => if c == quote then (run + 1, max best (run + 1)) else (0, best))
    (0, 0)).2

/-- The way a text is written: the first of the four that needs no escapes in it, a tab aside. Where
each would need some, lines decide. -/
def Quotation.ofText (cs : List Char) : Quotation :=
  let controls := cs.any fun c => !isShown c && c != '\n'
  let lines := cs.contains '\n'
  let plain := !controls && !cs.contains '\\'
  if plain && !lines && !cs.contains '"' then .basic
  else if !controls && !lines && !cs.contains '\'' then .literal
  else if plain && longestRun '"' cs ≤ 2 then .basicLines
  else if !controls && longestRun '\'' cs ≤ 2 then .literalLines
  else if lines then .basicLines
  else .basic

/-- Four hexadecimal digits of upper case. -/
def hexFour (n : Nat) : List Char :=
  [n / 0x1000 % 16, n / 0x100 % 16, n / 0x10 % 16, n % 16].map fun d => (Nat.digitChar d).toUpper

def escapeChar (c : Char) : List Char :=
  match c with
  | '\x08' => ['\\', 'b']
  | '\t' => ['\\', 't']
  | '\n' => ['\\', 'n']
  | '\x0c' => ['\\', 'f']
  | '\r' => ['\\', 'r']
  | '"' => ['\\', '"']
  | '\\' => ['\\', '\\']
  | c => if isShown c then [c] else '\\' :: 'u' :: hexFour c.toNat

/-- The text as it stands between three double quotes: a third quote in a row is escaped. -/
def escapeLines (run : Nat) : List Char → List Char
  | [] => []
  | c :: rest =>
    if c == '"' && run < 2 then '"' :: escapeLines (run + 1) rest
    else if c == '\n' then '\n' :: escapeLines 0 rest
    else escapeChar c ++ escapeLines 0 rest

def Quotation.write (cs : List Char) : Quotation → List Char
  | .basic => '"' :: cs.flatMap escapeChar ++ ['"']
  | .literal => '\'' :: cs ++ ['\'']
  | .basicLines =>
    ['"', '"', '"'] ++ (if cs.contains '\n' then ['\n'] else []) ++ escapeLines 0 cs ++
      ['"', '"', '"']
  | .literalLines =>
    ['\'', '\'', '\''] ++ (if cs.contains '\n' then ['\n'] else []) ++ cs ++ ['\'', '\'', '\'']

/-- A text with its quotes, in the plainest way. -/
def writeQuoted (s : String) : List Char := (Quotation.ofText s.toList).write s.toList

end Fairway.Toml
