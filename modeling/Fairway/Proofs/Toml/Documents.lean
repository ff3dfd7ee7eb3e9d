import Fairway.Proofs.Toml.Numbers
import Fairway.Proofs.Toml.Texts
import Fairway.Toml.Read

namespace Fairway.Toml

/-- A name that stands for itself, without quotes. -/
def Bare (name : String) : Prop := name.toList ≠ [] ∧ name.toList.all isBare

instance (name : String) : Decidable (Bare name) := inferInstanceAs (Decidable (_ ∧ _))

/-- A value that a section gives to one of its names: a text, or a whole number that fits. -/
inductive Setting where
  | text (value : String)
  | count (value : Nat) (fits : value < Nat.pow 2 63)

namespace Setting

def write : Setting → List Char
  | .text s => writeQuoted s
  | .count n _ => decimal n

def toml : Setting → Toml
  | .text s => .text s
  | .count n _ => .integer n

end Setting

/-- A line of a section. -/
structure Entry where
  name : String
  value : Setting
  bare : Bare name := by decide +kernel

def Entry.write (e : Entry) : List Char := e.name.toList ++ [' ', '=', ' '] ++ e.value.write ++ ['\n']

/-- A table with a header of its own and a line for each entry. -/
structure Section where
  name : String
  entries : List Entry
  bare : Bare name := by decide +kernel
  distinct : (entries.map Entry.name).Nodup := by simp

namespace Section

def write (s : Section) : List Char := '[' :: s.name.toList ++ [']', '\n'] ++ s.entries.flatMap Entry.write

def tableOf (entries : List Entry) : Toml := .table .header (entries.map fun e => (e.name, e.value.toml))

def entry (s : Section) : String × Toml := (s.name, tableOf s.entries)

/-- A document of sections, with an empty line between any two. -/
def writeAll (sections : List Section) : List Char := ['\n'].intercalate (sections.map write)

end Section

theorem Quotation.write_eq_cons (q : Quotation) (cs : List Char) :
    ∃ c tail, q.write cs = c :: tail ∧ (c = '"' ∨ c = '\'') := by
  cases q with
  | basic | basicLines => exact ⟨'"', _, rfl, .inl rfl⟩
  | literal | literalLines => exact ⟨'\'', _, rfl, .inr rfl⟩

section Values

variable (fuel room : Nat) (rest : List Char)

theorem readValue_text (s : String) :
    readValue (fuel + 1) room (writeQuoted s ++ '\n' :: rest) = some (.text s, '\n' :: rest) := by
  have read := readQuoted_writeQuoted s rest
  obtain ⟨c, tail, form, quote⟩ := (Quotation.ofText s.toList).write_eq_cons s.toList
  rw [writeQuoted, form, List.cons_append] at read ⊢
  rcases quote with rfl | rfl
  · simp [readValue, read]
  · simp [readValue, read]

theorem readValue_count {n : Nat} (fits : n < Nat.pow 2 63) :
    readValue (fuel + 1) room (decimal n ++ '\n' :: rest) = some (.integer n, '\n' :: rest) := by
  have read := readNumeric_decimal fits rest
  obtain ⟨c, cs, digits, digit⟩ := decimal_eq_cons n
  rw [digits, List.cons_append] at read ⊢
  have bracket : c ≠ '[' := ne_of_class digit (by decide)
  have brace : c ≠ '{' := ne_of_class digit (by decide)
  have yes : c ≠ 't' := ne_of_class digit (by decide)
  have no : c ≠ 'f' := ne_of_class digit (by decide)
  have quote : c ≠ '"' := ne_of_class digit (by decide)
  have literal : c ≠ '\'' := ne_of_class digit (by decide)
  simp [readValue, read, bracket, brace, yes, no, quote, literal]

theorem Setting.write_eq_cons (v : Setting) : ∃ c tail, v.write = c :: tail ∧ isGap c = false := by
  cases v with
  | text s =>
    obtain ⟨c, tail, form, quote⟩ := (Quotation.ofText s.toList).write_eq_cons s.toList
    refine ⟨c, tail, form, ?_⟩
    rcases quote with rfl | rfl <;> decide
  | count n fits =>
    obtain ⟨c, tail, digits, digit⟩ := decimal_eq_cons n
    have space : c ≠ ' ' := ne_of_class digit (by decide)
    have tab : c ≠ '\t' := ne_of_class digit (by decide)
    exact ⟨c, tail, digits, by simp [isGap, space, tab]⟩

theorem readValue_write (v : Setting) :
    readValue (fuel + 1) room (v.write ++ '\n' :: rest) = some (v.toml, '\n' :: rest) := by
  cases v with
  | text s => exact readValue_text fuel room rest s
  | count n fits => exact readValue_count fuel room rest fits

end Values

section Names

variable {name : String} {d : Char}

theorem Bare.all (bare : Bare name) : ∀ c ∈ name.toList, isBare c := List.all_eq_true.1 bare.2

theorem Bare.eq_cons (bare : Bare name) : ∃ c cs, name.toList = c :: cs ∧ isBare c := by
  obtain ⟨c, cs, form⟩ := List.exists_cons_of_ne_nil bare.1
  exact ⟨c, cs, form, bare.all c (by simp [form])⟩

theorem Bare.append_ne (bare : Bare name) (other : isBare d = false) (rest tail : List Char) :
    name.toList ++ rest ≠ d :: tail := by
  obtain ⟨c, cs, form, first⟩ := bare.eq_cons
  intro same
  rw [form] at same
  exact ne_of_class first other (List.cons.inj same).1

theorem skipGaps_cons {c : Char} (shown : isGap c = false) (rest : List Char) : skipGaps (c :: rest) = c :: rest := by
  rw [skipGaps, List.dropWhile_cons_of_neg (by simp [shown])]

theorem skipGaps_space (rest : List Char) : skipGaps (' ' :: rest) = skipGaps rest := by
  rw [skipGaps, skipGaps, List.dropWhile_cons_of_pos (by decide)]

theorem isGap_of_isBare {c : Char} (bare : isBare c) : isGap c = false := by
  have space : c ≠ ' ' := ne_of_class bare (by decide)
  have tab : c ≠ '\t' := ne_of_class bare (by decide)
  simp [isGap, space, tab]

theorem Bare.skipGaps_append (bare : Bare name) (rest : List Char) :
    skipGaps (name.toList ++ rest) = name.toList ++ rest := by
  obtain ⟨c, cs, form, first⟩ := bare.eq_cons
  rw [form, List.cons_append, skipGaps_cons (isGap_of_isBare first)]

/-- A bare name ends where a character that cannot be in one begins. -/
theorem readName_bare (bare : Bare name) (other : isBare d = false) (rest : List Char) :
    readName (name.toList ++ d :: rest) = some (name, d :: rest) := by
  have taken : (name.toList ++ d :: rest).takeWhile isBare = name.toList := by
    rw [List.takeWhile_append_of_pos bare.all, List.takeWhile_cons_of_neg (by simp [other]), List.append_nil]
  have dropped : (name.toList ++ d :: rest).dropWhile isBare = d :: rest := by
    rw [List.dropWhile_append_of_pos bare.all, List.dropWhile_cons_of_neg (by simp [other])]
  rw [readName]
  · simp [taken, dropped, bare.1]
  · exact bare.append_ne (by decide) _
  · exact bare.append_ne (by decide) _

/-- Without a dot behind it, a bare name is a whole key. -/
theorem readKey_bare (bare : Bare name) (other : isBare d = false) {rest : List Char} {e : Char} {tail : List Char}
    (next : skipGaps (d :: rest) = e :: tail) (dot : e ≠ '.') :
    readKey (name.toList ++ d :: rest) = some ([], name, e :: tail) := by
  have names : readNames nestingLimit (name.toList ++ d :: rest) = some ([name], e :: tail) := by
    rw [nestingLimit, readNames, bare.skipGaps_append, readName_bare bare other]
    dsimp only
    rw [next]
    split
    case h_1 same => exact absurd (List.cons.inj same).1 dot
    case h_2 => rfl
  rw [readKey, names]
  rfl

end Names

section Lines

variable {name : String} (draft : Draft) (rest : List Char)

theorem endLine_newline : endLine ('\n' :: rest) = some rest := by
  rw [endLine, skipGaps_cons (by decide)]
  rfl

theorem endLine_bare (bare : Bare name) : endLine (name.toList ++ rest) = none := by
  rw [endLine, bare.skipGaps_append]
  obtain ⟨c, cs, form, first⟩ := bare.eq_cons
  have comment : c ≠ '#' := ne_of_class first (by decide)
  have newline : c ≠ '\n' := ne_of_class first (by decide)
  have back : c ≠ '\r' := ne_of_class first (by decide)
  simp [form, comment, newline, back, newline?]

theorem readLine_blank : readLine draft ('\n' :: rest) = some (draft, rest) := by
  rw [readLine, skipGaps_cons (by decide)]
  simp [endLine_newline]

theorem readLine_header (bare : Bare name) :
    readLine draft ('[' :: (name.toList ++ ']' :: '\n' :: rest)) =
      (openTable [] name draft.entries).map fun entries => (⟨entries, [name]⟩, rest) := by
  have key := readKey_bare bare (by decide) (skipGaps_cons (c := ']') (by decide) ('\n' :: rest)) (by decide)
  rw [readLine, skipGaps_cons (by decide)]
  split
  case h_1 same => exact absurd (List.cons.inj same).2 (bare.append_ne (by decide) _ _)
  case h_2 same =>
    obtain ⟨-, rfl⟩ := List.cons.inj same
    cases opened : openTable [] name draft.entries <;> simp [key, after?, endLine_newline, opened]
  case h_3 other => exact absurd rfl (other _)

theorem readLine_entry (e : Entry) :
    readLine draft (e.write ++ rest) =
      (alter .header (assign [] e.name e.value.toml) draft.current .header draft.entries).map
        fun entries => ({ draft with entries }, rest) := by
  have form : e.write ++ rest = e.name.toList ++ ' ' :: '=' :: ' ' :: (e.value.write ++ '\n' :: rest) := by
    simp [Entry.write]
  have gap : skipGaps (' ' :: '=' :: ' ' :: (e.value.write ++ '\n' :: rest)) =
      '=' :: ' ' :: (e.value.write ++ '\n' :: rest) := by
    rw [skipGaps_space, skipGaps_cons (by decide)]
  have key := readKey_bare e.bare (by decide) gap (by decide)
  have value : skipGaps (' ' :: (e.value.write ++ '\n' :: rest)) = e.value.write ++ '\n' :: rest := by
    obtain ⟨c, cs, form, shown⟩ := e.value.write_eq_cons
    rw [skipGaps_space, form, List.cons_append, skipGaps_cons shown]
  rw [form, readLine, e.bare.skipGaps_append]
  split
  case h_1 same => exact absurd same (e.bare.append_ne (by decide) _ _)
  case h_2 same => exact absurd same (e.bare.append_ne (by decide) _ _)
  case h_3 =>
    cases altered : alter .header (assign [] e.name e.value.toml) draft.current .header draft.entries <;>
      simp [endLine_bare _ e.bare, key, after?, value, readValue_write, endLine_newline, altered]

end Lines

section Tables

variable {entries : Entries} {name : String}

theorem lookup_of_mem (distinct : (entries.map Prod.fst).Nodup) {value : Toml} (member : (name, value) ∈ entries) :
    entries.lookup name = some value := by
  obtain ⟨before, after, rfl⟩ := List.append_of_mem member
  rw [List.map_append, List.map_cons, List.nodup_append] at distinct
  refine List.lookup_eq_some_iff.2 ⟨before, after, rfl, fun p earlier => ?_⟩
  have different := distinct.2.2 p.1 (List.mem_map_of_mem earlier) name List.mem_cons_self
  simpa using different.symm

theorem lookup_of_not_mem (absent : name ∉ entries.map Prod.fst) : entries.lookup name = none := by
  refine List.lookup_eq_none_iff.2 fun p member => ?_
  have different : name ≠ p.1 := by
    rintro rfl
    exact absent (List.mem_map_of_mem member)
  simpa using different

variable (new : entries.lookup name = none)

include new

theorem lookup_last (value : Toml) : (entries ++ [(name, value)]).lookup name = some value := by
  rw [List.lookup_append, new, Option.none_or, List.lookup_cons_self]

theorem replace_last (old value : Toml) :
    replace name value (entries ++ [(name, old)]) = entries ++ [(name, value)] := by
  have others : ∀ p ∈ entries, (if p.1 == name then (p.1, value) else p) = p := by
    intro p member
    have different : name ≠ p.1 := by simpa using List.lookup_eq_none_iff.1 new p member
    exact if_neg (by simpa using different.symm)
  rw [replace, List.map_append, List.map_congr_left others, List.map_id']
  simp

theorem openTable_new : openTable [] name entries = some (entries ++ [(name, .table .header [])]) := by
  simp [openTable, alter, new]

/-- The table that was opened last takes one more name. -/
theorem alter_last {inner : Entries} {key : String} (unset : inner.lookup key = none) (value : Toml) :
    alter .header (assign [] key value) [name] .header (entries ++ [(name, .table .header inner)]) =
      some (entries ++ [(name, .table .header (inner ++ [(key, value)]))]) := by
  simp [alter, lookup_last new, Way.passes, assign, add, unset, replace_last new]

end Tables

/-- Read to their end, the lines left give these entries. -/
def Leads (draft : Draft) (cs : List Char) (entries : Entries) : Prop :=
  ∀ fuel, cs.length ≤ fuel → (readLines fuel draft cs).map Draft.entries = some entries

namespace Leads

variable {draft next : Draft} {cs rest : List Char} {entries : Entries}

theorem done (draft : Draft) : Leads draft [] draft.entries := by
  intro fuel _
  cases fuel <;> simp [readLines]

theorem line (read : readLine draft cs = some (next, rest)) (shorter : rest.length < cs.length)
    (later : Leads next rest entries) : Leads draft cs entries := by
  intro fuel enough
  obtain ⟨fuel, rfl⟩ : ∃ more, fuel = more + 1 := ⟨fuel - 1, by omega⟩
  cases cs with
  | nil => cases shorter
  | cons c cs =>
    rw [readLines, read]
    · exact later fuel (by omega)
    · exact List.cons_ne_nil c cs

end Leads

section Sections

variable {before found : Entries} {name : String} {rest : List Char}

theorem leads_entries (new : before.lookup name = none) (done es : List Entry)
    (distinct : ((done ++ es).map Entry.name).Nodup)
    (later : Leads ⟨before ++ [(name, Section.tableOf (done ++ es))], [name]⟩ rest found) :
    Leads ⟨before ++ [(name, Section.tableOf done)], [name]⟩ (es.flatMap Entry.write ++ rest) found := by
  induction es generalizing done with
  | nil => simpa using later
  | cons e es ih =>
    have whole : done ++ e :: es = done ++ [e] ++ es := by simp
    have unset : (done.map fun e => (e.name, e.value.toml)).lookup e.name = none := by
      refine lookup_of_not_mem fun member => ?_
      rw [List.map_append, List.map_cons] at distinct
      refine (List.nodup_append.1 distinct).2.2 _ ?_ _ List.mem_cons_self rfl
      simpa using member
    rw [whole] at distinct later
    rw [List.flatMap_cons, List.append_assoc]
    have read := readLine_entry ⟨before ++ [(name, Section.tableOf done)], [name]⟩
      (es.flatMap Entry.write ++ rest) e
    rw [Section.tableOf, alter_last new unset, Option.map_some] at read
    refine .line read (by simp [Entry.write]; omega) ?_
    simpa [Section.tableOf] using ih _ distinct later

theorem leads_section (s : Section) (current : Path) (new : before.lookup s.name = none)
    (later : Leads ⟨before ++ [s.entry], [s.name]⟩ rest found) :
    Leads ⟨before, current⟩ (s.write ++ rest) found := by
  have form : s.write ++ rest = '[' :: (s.name.toList ++ ']' :: '\n' :: (s.entries.flatMap Entry.write ++ rest)) := by
    simp [Section.write]
  have read := readLine_header ⟨before, current⟩ (s.entries.flatMap Entry.write ++ rest) s.bare
  rw [openTable_new new, Option.map_some] at read
  rw [form]
  exact .line read (by simp; omega) (leads_entries new [] s.entries s.distinct later)

/-- Sections with different names are read one after another. -/
theorem leads_sections (sections : List Section) (before : Entries) (current : Path)
    (distinct : (before.map Prod.fst ++ sections.map Section.name).Nodup) :
    Leads ⟨before, current⟩ (Section.writeAll sections) (before ++ sections.map Section.entry) := by
  induction sections generalizing before current with
  | nil => simpa [Section.writeAll] using Leads.done ⟨before, current⟩
  | cons s sections ih =>
    have new : before.lookup s.name = none :=
      lookup_of_not_mem fun member => (List.nodup_append.1 distinct).2.2 _ member _ List.mem_cons_self rfl
    have whole : before ++ (s :: sections).map Section.entry = before ++ [s.entry] ++ sections.map Section.entry := by
      simp
    have later := ih (before ++ [s.entry]) [s.name] (by simpa [Section.entry] using distinct)
    rw [whole]
    cases sections with
    | nil => simpa [Section.writeAll] using leads_section s current new later
    | cons t sections =>
      rw [Section.writeAll, List.map_cons, List.intercalate_cons_of_ne_nil (by simp), List.append_assoc]
      refine leads_section s current new (.line (readLine_blank _ _) ?_ later)
      simp

/-- Sections with different names are read back from what is written. -/
theorem parse_write {sections : List Section} (distinct : (sections.map Section.name).Nodup) :
    parse (String.ofList (Section.writeAll sections)) = some (sections.map Section.entry) := by
  have read := leads_sections sections [] [] distinct _ (Nat.le_refl _)
  have mark (rest : List Char) : Section.writeAll sections ≠ '\ufeff' :: rest := by
    intro same
    cases sections with
    | nil => cases same
    | cons s sections =>
      cases sections <;> simp [Section.writeAll, Section.write, List.intercalate_cons_cons] at same
  rw [parse, String.toList_ofList]
  split
  case h_1 same => exact absurd same (mark _)
  case h_2 => exact read

end Sections

end Fairway.Toml
