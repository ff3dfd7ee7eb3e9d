import Fairway.Toml.Text

namespace Fairway.Toml

theorem hexDigit?_toUpper : ∀ d < 16, hexDigit? (Nat.digitChar d).toUpper = some d := by
  decide

/-- Four digits name the character they were written for. -/
theorem namedChar?_hexFour {n : Nat} (small : n < 0xd800) : namedChar? (hexFour n) = some (Char.ofNat n) := by
  have digit (d : Nat) : hexDigit? (Nat.digitChar (d % 16)).toUpper = some (d % 16) :=
    hexDigit?_toUpper _ (Nat.mod_lt _ (by decide))
  have value : 16 * (16 * (16 * (16 * 0 + n / 0x1000 % 16) + n / 0x100 % 16) + n / 0x10 % 16) + n % 16 = n := by
    omega
  simp only [namedChar?, hexFour, List.map_cons, List.map_nil, List.mapM_cons, List.mapM_nil, digit,
    Option.bind_eq_bind, Option.pure_def, Option.bind_some, List.foldl_cons, List.foldl_nil, value]
  rw [if_pos (.inl small)]

/-- A character is written as one of three forms: a letter behind a backslash, its code in four hexadecimal
digits, or itself. -/
theorem escapeChar_cases (c : Char) :
    (∃ letter, escapeChar c = ['\\', letter] ∧ escapes.lookup letter = some c) ∨
    (escapeChar c = '\\' :: 'u' :: hexFour c.toNat ∧ c.toNat < 0xd800) ∨
    (escapeChar c = [c] ∧ isShown c ∧ c ≠ '"' ∧ c ≠ '\\') := by
  unfold escapeChar
  split
  · exact .inl ⟨'b', rfl, rfl⟩
  · exact .inl ⟨'t', rfl, rfl⟩
  · exact .inl ⟨'n', rfl, rfl⟩
  · exact .inl ⟨'f', rfl, rfl⟩
  · exact .inl ⟨'r', rfl, rfl⟩
  · exact .inl ⟨'"', rfl, rfl⟩
  · exact .inl ⟨'\\', rfl, rfl⟩
  · rename_i quote backslash
    split
    case isTrue shown => exact .inr (.inr ⟨rfl, shown, quote, backslash⟩)
    case isFalse hidden =>
      refine .inr (.inl ⟨rfl, ?_⟩)
      simp only [isShown, Bool.or_eq_true, Bool.and_eq_true, decide_eq_true_eq, bne_iff_ne] at hidden
      omega

theorem escapeChar_begins (c : Char) : ∃ d tail, escapeChar c = d :: tail ∧ d ≠ '"' ∧ isShown d := by
  rcases escapeChar_cases c with ⟨letter, form, _⟩ | ⟨form, _⟩ | ⟨form, shown, quote, _⟩
  · exact ⟨'\\', [letter], form, by decide, by decide⟩
  · exact ⟨'\\', _, form, by decide, by decide⟩
  · exact ⟨c, [], form, quote, shown⟩

/-- A letter that stands for a character behind a backslash begins no code. -/
theorem letter_ne {letter c : Char} (known : escapes.lookup letter = some c) : letter ≠ 'u' ∧ letter ≠ 'U' := by
  constructor <;> (rintro rfl; cases known)

/-- A reader of what is between double quotes takes each form that a character is written in. -/
structure ReadsEscapes (read : List Char → Option (List Char × List Char)) : Prop where
  letter {letter c : Char} (known : escapes.lookup letter = some c) (rest : List Char) :
    read ('\\' :: letter :: rest) = push c (read rest)
  code {n : Nat} (small : n < 0xd800) (rest : List Char) :
    read ('\\' :: 'u' :: hexFour n ++ rest) = push (Char.ofNat n) (read rest)
  itself {c : Char} (shown : isShown c) (quote : c ≠ '"') (backslash : c ≠ '\\') (rest : List Char) :
    read (c :: rest) = push c (read rest)

theorem ReadsEscapes.char {read : List Char → Option (List Char × List Char)} (reads : ReadsEscapes read) (c : Char)
    (rest : List Char) : read (escapeChar c ++ rest) = push c (read rest) := by
  rcases escapeChar_cases c with ⟨letter, form, known⟩ | ⟨form, small⟩ | ⟨form, shown, quote, backslash⟩
  · rw [form]
    exact reads.letter known rest
  · rw [form, reads.code small, Char.ofNat_toNat]
  · rw [form]
    exact reads.itself shown quote backslash rest

theorem readsEscapes_basic : ReadsEscapes readBasic where
  letter known rest := by
    obtain ⟨no_code, no_long_code⟩ := letter_ne known
    simp [readBasic, known, no_code, no_long_code]
  code small rest := by
    have named := namedChar?_hexFour small
    simp only [hexFour, List.map_cons, List.map_nil] at named
    simp [hexFour, readBasic, named]
  itself shown _ backslash rest := by simp [readBasic, shown, backslash]

theorem readBasic_escaped (cs rest : List Char) :
    readBasic (cs.flatMap escapeChar ++ '"' :: rest) = some (cs, rest) := by
  induction cs with
  | nil => simp [readBasic]
  | cons c cs ih =>
    rw [List.flatMap_cons, List.append_assoc, readsEscapes_basic.char, ih, push, Option.map_some]

theorem readLiteral_shown {cs : List Char} (plain : ∀ c ∈ cs, isShown c ∧ c ≠ '\'') (rest : List Char) :
    readLiteral (cs ++ '\'' :: rest) = some (cs, rest) := by
  induction cs with
  | nil => simp [readLiteral]
  | cons c cs ih =>
    obtain ⟨shown, quote⟩ := plain c List.mem_cons_self
    have inner := ih fun d member => plain d (List.mem_cons_of_mem _ member)
    simp [readLiteral, shown, inner, push]

/-- What is read with some characters in front. -/
def pushAll (front : List Char) (read : Option (List Char × List Char)) : Option (List Char × List Char) :=
  read.map fun (cs, rest) => (front ++ cs, rest)

theorem pushAll_some (front cs rest : List Char) : pushAll front (some (cs, rest)) = some (front ++ cs, rest) := by
  rw [pushAll, Option.map_some]

/-- A reader of what is between three quotes and three more. -/
structure ReadsLines (quote : Char) (read : List Char → Option (List Char × List Char)) : Prop where
  /-- Before fewer than two others, a quote is part of the text. -/
  one : ∀ rest, ¬ [quote, quote] <+: rest → read (quote :: rest) = push quote (read rest)
  /-- So are the first two of five that end it. -/
  closes : ∀ run ≤ 2, ∀ rest, rest.head? ≠ some quote →
    read (List.replicate run quote ++ quote :: quote :: quote :: rest) = some (List.replicate run quote, rest)

/-- How a text is written behind a run of quotes: a quote as itself, with never more than two in a row, and any
other character in a way that is read as that character and does not begin with a quote. -/
inductive Lined (quote : Char) (read : List Char → Option (List Char × List Char)) :
    Nat → List Char → List Char → Prop
  | done {run} (few : run ≤ 2) : Lined quote read run [] []
  | quote {run cs written} (later : Lined quote read (run + 1) cs written) :
      Lined quote read run (quote :: cs) (quote :: written)
  | other {run c cs d tail written} (few : run ≤ 2) (different : d ≠ quote)
      (reads : ∀ rest, read (d :: tail ++ rest) = push c (read rest)) (later : Lined quote read 0 cs written) :
      Lined quote read run (c :: cs) (d :: tail ++ written)

section Lines

variable {quote : Char} {read : List Char → Option (List Char × List Char)} {run : Nat} {cs written rest : List Char}

theorem ReadsLines.few (reads : ReadsLines quote read) (few : run ≤ 2) (other : rest.head? ≠ some quote) :
    read (List.replicate run quote ++ rest) = pushAll (List.replicate run quote) (read rest) := by
  have last : ¬ [quote, quote] <+: rest := by
    rintro ⟨tail, rfl⟩
    simp at other
  have both : ¬ [quote, quote] <+: quote :: rest := by
    rintro ⟨tail, same⟩
    cases same
    simp at other
  match run, few with
  | 0, _ => simp [pushAll]
  | 1, _ => simp [reads.one _ last, push, pushAll]
  | 2, _ => simp [List.replicate, reads.one _ both, reads.one _ last, push, pushAll, Function.comp_def]

theorem Lined.itself {c : Char} (few : run ≤ 2) (different : c ≠ quote)
    (reads : ∀ rest, read (c :: rest) = push c (read rest)) (later : Lined quote read 0 cs written) :
    Lined quote read run (c :: cs) (c :: written) := by
  rw [← List.nil_append written, ← List.cons_append]
  exact .other few different reads later

/-- What is written so between three quotes is read back. -/
theorem Lined.read_eq (lined : Lined quote read run cs written) (reads : ReadsLines quote read)
    (other : rest.head? ≠ some quote) :
    read (List.replicate run quote ++ (written ++ quote :: quote :: quote :: rest)) =
      some (List.replicate run quote ++ cs, rest) := by
  induction lined with
  | done few => simpa using reads.closes _ few rest other
  | @quote run cs written later ih =>
    have longer (back : List Char) : List.replicate run quote ++ quote :: back =
        List.replicate (run + 1) quote ++ back := by
      rw [List.replicate_succ', List.append_assoc, List.singleton_append]
    rw [List.cons_append, longer, ih, longer]
  | @other run c cs d tail written few different char later ih =>
    rw [List.replicate_zero, List.nil_append, List.nil_append] at ih
    rw [List.append_assoc, reads.few few (by simpa using different), char, ih, push, Option.map_some, pushAll_some]

end Lines

section BasicLines

theorem readsLines_basic : ReadsLines '"' (readBasicLines false) where
  one rest few := by
    have shown : isShown '"' := by decide
    have fewer (tail : List Char) : rest ≠ '"' :: '"' :: tail := by
      rintro rfl
      exact few ⟨tail, by simp⟩
    rw [readBasicLines]
    · simp [shown]
    · simpa using fun tail => fewer ('"' :: '"' :: tail)
    · simpa using fun tail => fewer ('"' :: tail)
    · simpa using fewer
    all_goals simp
  closes run few rest other := by
    have different {d : Char} {tail : List Char} (form : rest = d :: tail) : d ≠ '"' := by
      rintro rfl
      simp [form] at other
    match run, few with
    | 0, _ => cases rest <;> simp_all [readBasicLines]
    | 1, _ => cases rest <;> simp_all [readBasicLines]
    | 2, _ => simp [List.replicate, readBasicLines]

theorem readsEscapes_basicLines : ReadsEscapes (readBasicLines false) where
  letter known rest := by
    obtain ⟨no_code, no_long_code⟩ := letter_ne known
    simp [readBasicLines, known, no_code, no_long_code]
  code small rest := by
    have named := namedChar?_hexFour small
    simp only [hexFour, List.map_cons, List.map_nil] at named
    simp [hexFour, readBasicLines, named]
  itself {c} shown quote backslash rest := by
    have not_return : c ≠ '\r' := by
      rintro rfl
      cases shown
    simp [readBasicLines, shown, quote, backslash, not_return]

theorem readBasicLines_newline (rest : List Char) :
    readBasicLines false ('\n' :: rest) = push '\n' (readBasicLines false rest) := by
  rw [readBasicLines] <;> simp

theorem lined_escapeLines (cs : List Char) {run : Nat} (few : run ≤ 2) :
    Lined '"' (readBasicLines false) run cs (escapeLines run cs) := by
  induction cs generalizing run with
  | nil => exact .done few
  | cons c cs ih =>
    rw [escapeLines]
    split
    case isTrue kept =>
      obtain ⟨rfl, fewer⟩ : c = '"' ∧ run < 2 := by simpa using kept
      exact .quote (ih fewer)
    case isFalse =>
      have later := ih (Nat.zero_le 2)
      split
      case isTrue newline =>
        obtain rfl : c = '\n' := by simpa using newline
        exact .itself few (by decide) readBasicLines_newline later
      case isFalse =>
        obtain ⟨d, tail, form, different, _⟩ := escapeChar_begins c
        have reads := readsEscapes_basicLines.char c
        rw [form] at reads ⊢
        exact .other few different reads later

end BasicLines

section LiteralLines

/-- The run of quotes that a text ends with, and the longest in it, when what is before it has such runs. -/
def runsAfter (quote : Char) (before : Nat × Nat) (cs : List Char) : Nat × Nat :=
  cs.foldl (fun (run, best) c => if c == quote then (run + 1, max best (run + 1)) else (0, best)) before

theorem longestRun_eq (quote : Char) (cs : List Char) : longestRun quote cs = (runsAfter quote (0, 0) cs).2 := rfl

theorem runsAfter_cons (quote c : Char) (run best : Nat) (cs : List Char) :
    runsAfter quote (run, best) (c :: cs) =
      if c = quote then runsAfter quote (run + 1, max best (run + 1)) cs else runsAfter quote (0, best) cs := by
  simp only [runsAfter, List.foldl_cons, beq_iff_eq]
  split <;> rfl

theorem le_runsAfter (quote : Char) (cs : List Char) (run best : Nat) :
    best ≤ (runsAfter quote (run, best) cs).2 := by
  induction cs generalizing run best with
  | nil => exact Nat.le_refl _
  | cons c cs ih =>
    rw [runsAfter_cons]
    split
    case isTrue => exact Nat.le_trans (Nat.le_max_left _ _) (ih _ _)
    case isFalse => exact ih _ _

theorem readsLines_literal : ReadsLines '\'' readLiteralLines where
  one rest few := by
    have shown : isShown '\'' := by decide
    have fewer (tail : List Char) : rest ≠ '\'' :: '\'' :: tail := by
      rintro rfl
      exact few ⟨tail, by simp⟩
    rw [readLiteralLines]
    · simp [shown]
    · simpa using fun tail => fewer ('\'' :: '\'' :: tail)
    · simpa using fun tail => fewer ('\'' :: tail)
    · simpa using fewer
    all_goals simp
  closes run few rest other := by
    have different {d : Char} {tail : List Char} (form : rest = d :: tail) : d ≠ '\'' := by
      rintro rfl
      simp [form] at other
    match run, few with
    | 0, _ => cases rest <;> simp_all [readLiteralLines]
    | 1, _ => cases rest <;> simp_all [readLiteralLines]
    | 2, _ => simp [List.replicate, readLiteralLines]

theorem readLiteralLines_shown {c : Char} (shown : isShown c ∨ c = '\n') (quote : c ≠ '\'') (rest : List Char) :
    readLiteralLines (c :: rest) = push c (readLiteralLines rest) := by
  have not_return : c ≠ '\r' := by
    rintro rfl
    rcases shown with shown | same
    · cases shown
    · cases same
  simp [readLiteralLines, shown.symm, quote, not_return]

/-- Without a long run of quotes, and without controls but line ends, a text stands for itself. -/
theorem lined_self {cs : List Char} (plain : ∀ c ∈ cs, isShown c ∨ c = '\n') {run best : Nat}
    (within : run ≤ best) (short : (runsAfter '\'' (run, best) cs).2 ≤ 2) :
    Lined '\'' readLiteralLines run cs cs := by
  induction cs generalizing run best with
  | nil => exact .done (Nat.le_trans within short)
  | cons c cs ih =>
    have later := fun d member => plain d (List.mem_cons_of_mem _ member)
    have few := Nat.le_trans (Nat.le_trans within (le_runsAfter _ _ run best)) short
    rw [runsAfter_cons] at short
    split at short
    case isTrue quote =>
      subst quote
      exact .quote (ih later (Nat.le_max_right _ _) short)
    case isFalse quote =>
      have reads := readLiteralLines_shown (plain c List.mem_cons_self) quote
      exact .itself few quote reads (ih later (Nat.zero_le _) short)

end LiteralLines

namespace Quotation

/-- Which texts can be written in a way. -/
def Suits (cs : List Char) : Quotation → Prop
  | .basic => True
  | .literal => ∀ c ∈ cs, isShown c ∧ c ≠ '\''
  | .basicLines => True
  | .literalLines => (∀ c ∈ cs, isShown c ∨ c = '\n') ∧ longestRun '\'' cs ≤ 2

theorem suits_ofText (cs : List Char) : (ofText cs).Suits cs := by
  unfold ofText
  dsimp only
  split
  case isTrue => trivial
  case isFalse =>
    split
    case isTrue literal =>
      obtain ⟨⟨shown, line⟩, quote⟩ : ((∀ c ∈ cs, isShown c ∨ c = '\n') ∧ '\n' ∉ cs) ∧ '\'' ∉ cs := by
        simpa [Decidable.or_iff_not_imp_left] using literal
      intro c member
      refine ⟨(shown c member).resolve_right ?_, ?_⟩
      · rintro rfl
        exact line member
      · rintro rfl
        exact quote member
    case isFalse =>
      split
      case isTrue => trivial
      case isFalse =>
        split
        case isTrue literal =>
          obtain ⟨shown, short⟩ : (∀ c ∈ cs, isShown c ∨ c = '\n') ∧ longestRun '\'' cs ≤ 2 := by
            simpa [Decidable.or_iff_not_imp_left] using literal
          exact ⟨shown, short⟩
        case isFalse => split <;> trivial

end Quotation

section Quoted

variable {cs body rest : List Char}

theorem newline?_of_shown {d : Char} (shown : isShown d) (tail : List Char) : newline? (d :: tail) = none := by
  have not_newline : d ≠ '\n' := by
    rintro rfl
    cases shown
  have not_return : d ≠ '\r' := by
    rintro rfl
    cases shown
  simp [newline?, not_newline, not_return]

/-- The line end right behind three quotes is there where the text has others, and is passed over. -/
theorem newline?_opening (begins : '\n' ∉ cs → ∃ d tail, body = d :: tail ∧ isShown d) :
    (newline? ((if cs.contains '\n' then ['\n'] else []) ++ body)).getD
      ((if cs.contains '\n' then ['\n'] else []) ++ body) = body := by
  split
  case isTrue => simp [newline?]
  case isFalse none =>
    obtain ⟨d, tail, rfl, shown⟩ := begins (by simpa using none)
    rw [List.nil_append, newline?_of_shown shown, Option.getD_none]

theorem readQuoted_basic (few : ¬ ['"', '"'] <+: rest) : readQuoted ('"' :: rest) = readBasic rest := by
  rw [readQuoted]
  rintro tail rfl
  exact few ⟨tail, by simp⟩

theorem readQuoted_literal (few : ¬ ['\'', '\''] <+: rest) : readQuoted ('\'' :: rest) = readLiteral rest := by
  rw [readQuoted]
  rintro tail rfl
  exact few ⟨tail, by simp⟩

theorem escapeLines_begins (line : '\n' ∉ cs) (rest : List Char) :
    ∃ d tail, escapeLines 0 cs ++ '"' :: rest = d :: tail ∧ isShown d := by
  cases cs with
  | nil => exact ⟨'"', rest, by simp [escapeLines], by decide⟩
  | cons c cs =>
    rw [escapeLines]
    split
    case isTrue => exact ⟨'"', _, by rw [List.cons_append], by decide⟩
    case isFalse =>
      split
      case isTrue newline =>
        obtain rfl : c = '\n' := by simpa using newline
        exact absurd List.mem_cons_self line
      case isFalse =>
        obtain ⟨d, tail, form, _, shown⟩ := escapeChar_begins c
        exact ⟨d, _, by rw [form, List.cons_append, List.cons_append], shown⟩

theorem literal_begins (shown : ∀ c ∈ cs, isShown c ∨ c = '\n') (line : '\n' ∉ cs) (rest : List Char) :
    ∃ d tail, cs ++ '\'' :: rest = d :: tail ∧ isShown d := by
  cases cs with
  | nil => exact ⟨'\'', rest, by simp, by decide⟩
  | cons c cs =>
    refine ⟨c, _, by rw [List.cons_append], (shown c List.mem_cons_self).resolve_right ?_⟩
    rintro rfl
    exact line List.mem_cons_self

/-- In each of the ways, a text that suits it is read back when its line ends. -/
theorem readQuoted_write {q : Quotation} (suits : q.Suits cs) (rest : List Char) :
    readQuoted (q.write cs ++ '\n' :: rest) = some (cs, '\n' :: rest) := by
  cases q with
  | basic =>
    have few : ¬ ['"', '"'] <+: cs.flatMap escapeChar ++ '"' :: '\n' :: rest := by
      rintro ⟨tail, same⟩
      cases cs with
      | nil => simp at same
      | cons c cs =>
        obtain ⟨d, inner, form, quote, _⟩ := escapeChar_begins c
        rw [List.flatMap_cons, form] at same
        exact quote (List.cons.inj same).1.symm
    have form : Quotation.basic.write cs ++ '\n' :: rest =
        '"' :: (cs.flatMap escapeChar ++ '"' :: '\n' :: rest) := by simp [Quotation.write]
    rw [form, readQuoted_basic few, readBasic_escaped]
  | literal =>
    have few : ¬ ['\'', '\''] <+: cs ++ '\'' :: '\n' :: rest := by
      rintro ⟨tail, same⟩
      cases cs with
      | nil => simp at same
      | cons c cs => exact (suits c List.mem_cons_self).2 (List.cons.inj same).1.symm
    have form : Quotation.literal.write cs ++ '\n' :: rest = '\'' :: (cs ++ '\'' :: '\n' :: rest) := by
      simp [Quotation.write]
    rw [form, readQuoted_literal few, readLiteral_shown suits]
  | basicLines =>
    have form : Quotation.basicLines.write cs ++ '\n' :: rest = '"' :: '"' :: '"' ::
        ((if cs.contains '\n' then ['\n'] else []) ++ (escapeLines 0 cs ++ '"' :: '"' :: '"' :: '\n' :: rest)) := by
      simp [Quotation.write]
    have ends : ('\n' :: rest).head? ≠ some '"' := by simp
    have read := (lined_escapeLines cs (Nat.zero_le 2)).read_eq readsLines_basic ends
    rw [form, readQuoted, newline?_opening fun line => escapeLines_begins line _]
    simpa using read
  | literalLines =>
    obtain ⟨shown, short⟩ := suits
    rw [longestRun_eq] at short
    have form : Quotation.literalLines.write cs ++ '\n' :: rest = '\'' :: '\'' :: '\'' ::
        ((if cs.contains '\n' then ['\n'] else []) ++ (cs ++ '\'' :: '\'' :: '\'' :: '\n' :: rest)) := by
      simp [Quotation.write]
    have ends : ('\n' :: rest).head? ≠ some '\'' := by simp
    have read := (lined_self shown (Nat.le_refl 0) short).read_eq readsLines_literal ends
    rw [form, readQuoted, newline?_opening fun line => literal_begins shown line _]
    simpa using read

/-- Any text is read back from its line. -/
theorem readQuoted_writeQuoted (s : String) (rest : List Char) :
    readQuoted (writeQuoted s ++ '\n' :: rest) = some (s.toList, '\n' :: rest) :=
  readQuoted_write (Quotation.suits_ofText s.toList) rest

/-- Quotes of both kinds, three in a row, a tab and a line end. -/
example : readQuoted (writeQuoted "\t'''\n\"\"\"" ++ ['\n']) = some ("\t'''\n\"\"\"".toList, ['\n']) := by
  decide +kernel

end Quoted

end Fairway.Toml
