import Fairway.Proofs.Json.Numbers
import Fairway.Proofs.Json.Strings

namespace Fairway.Json

/-- The documents that stored forms are made of: their strings and names are texts, and their numbers are
not negative. -/
inductive Written : Json → Prop
  | null : Written .null
  | bool (b) : Written (.bool b)
  | number (n) : Written (.ofNat n)
  | string (cs) : Written (.string (escaped cs))
  | array {items} (each : ∀ j ∈ items, Written j) : Written (.array items)
  | object {members} (names : ∀ m ∈ members, ∃ cs, m.1 = escaped cs)
      (values : ∀ m ∈ members, Written m.2) : Written (.object members)

/-- What a reader of values comes upon first in a document it was not to pass over. -/
def Begins (cs : Scanned) : Prop := ∃ c tail, cs = some c :: tail ∧ isSpace (some c) = false ∧ c ≠ ']'

theorem Begins.append {cs : Scanned} (begins : Begins cs) (rest : Scanned) : Begins (cs ++ rest) := by
  obtain ⟨c, tail, rfl, visible, different⟩ := begins
  exact ⟨c, tail ++ rest, rfl, visible, different⟩

theorem Begins.skipSpace {cs : Scanned} (begins : Begins cs) : skipSpace cs = cs := by
  obtain ⟨c, tail, rfl, visible, _⟩ := begins
  simp [Json.skipSpace, visible]

theorem digit_begins {c : Char} (digit : c.isDigit) (tail : Scanned) : Begins (some c :: tail) := by
  have different {d : Char} (other : d.isDigit = false) : c ≠ d := by
    rintro rfl
    exact Bool.false_ne_true (other.symm.trans digit)
  refine ⟨c, tail, rfl, ?_, different rfl⟩
  simp [isSpace, different (d := ' ') rfl, different (d := '\t') rfl, different (d := '\n') rfl,
    different (d := '\r') rfl]

theorem Written.begins {j : Json} (written : Written j) : Begins j.write := by
  cases written with
  | null => exact ⟨'n', _, rfl, rfl, by decide⟩
  | bool b => cases b <;> exact ⟨_, _, rfl, rfl, by decide⟩
  | string => exact ⟨'"', _, rfl, rfl, by decide⟩
  | array => exact ⟨'[', _, by rw [write, List.cons_append], rfl, by decide⟩
  | object => exact ⟨'{', _, by rw [write, List.cons_append], rfl, by decide⟩
  | number n =>
    cases digits : decimal n with
    | nil => exact absurd digits (decimal_ne_nil n)
    | cons c cs =>
      have digit : c.isDigit := decimal_digits (n := n) (by simp [digits])
      have form : (ofNat n).write = some c :: cs.map some := by
        simp [ofNat, write, Number.write, digits]
      exact form ▸ digit_begins digit _

theorem Closed.skipSpace {rest : Scanned} (closed : Closed rest) : skipSpace rest = rest := by
  rcases closed with rfl | ⟨c, tail, rfl, rfl | rfl | rfl⟩ <;> rfl

theorem skipSpace_quote (rest : Scanned) : skipSpace (some '"' :: rest) = some '"' :: rest := rfl

theorem skipSpace_colon (rest : Scanned) : skipSpace (some ':' :: rest) = some ':' :: rest := rfl

theorem closed_cons {c : Char} (closes : c = ',' ∨ c = ']' ∨ c = '}') (rest : Scanned) :
    Closed (some c :: rest) := .inr ⟨c, rest, rfl, closes⟩

/-- Two units of fuel for each character are enough to read a written document back. -/
def Reads (j : Json) : Prop := ∀ fuel rest, 2 * j.write.length < fuel → Closed rest →
  readValue fuel (j.write ++ rest) = some (j, rest)

theorem readItems_write {items : List Json} (nonempty : items ≠ []) (each : ∀ j ∈ items, Reads j)
    {fuel : Nat} (rest : Scanned) (enough : 2 * (writeItems items).length + 1 < fuel) :
    readItems fuel (writeItems items ++ some ']' :: rest) = some (items, rest) := by
  induction items generalizing fuel with
  | nil => exact absurd rfl nonempty
  | cons j items ih =>
    have reads := each j List.mem_cons_self
    cases fuel with
    | zero => omega
    | succ fuel =>
      cases items with
      | nil =>
        simp only [writeItems] at enough ⊢
        have first := reads fuel (some ']' :: rest) (by omega) (closed_cons (by simp) rest)
        simp only [readItems, first, (closed_cons (by simp) rest : Closed (some ']' :: rest)).skipSpace]
      | cons k items =>
        simp only [writeItems, List.length_append, List.length_cons, List.append_assoc,
          List.cons_append] at enough ⊢
        have comma := closed_cons (c := ',') (by simp) (writeItems (k :: items) ++ some ']' :: rest)
        have first := reads fuel _ (by omega) comma
        have inner : readItems fuel (writeItems (k :: items) ++ some ']' :: rest) = some (k :: items, rest) :=
          ih (by simp) (fun j member => each j (List.mem_cons_of_mem _ member)) (by omega)
        simp only [readItems, first, comma.skipSpace, inner, Option.map_some]

theorem readMembers_write {members : List (Scanned × Json)} (nonempty : members ≠ [])
    (names : ∀ m ∈ members, ∃ cs, m.1 = escaped cs) (each : ∀ m ∈ members, Reads m.2)
    {fuel : Nat} (rest : Scanned) (enough : 2 * (writeMembers members).length + 1 < fuel) :
    readMembers fuel (writeMembers members ++ some '}' :: rest) = some (members, rest) := by
  induction members generalizing fuel with
  | nil => exact absurd rfl nonempty
  | cons m members ih =>
    obtain ⟨name, j⟩ := m
    have reads : Reads j := each (name, j) List.mem_cons_self
    obtain ⟨cs, rfl⟩ := names (name, j) List.mem_cons_self
    have names := fun m member => names m (List.mem_cons_of_mem _ member)
    have each := fun m member => each m (List.mem_cons_of_mem _ member)
    cases fuel with
    | zero => omega
    | succ fuel =>
      cases members with
      | nil =>
        simp only [writeMembers, quote, List.length_append, List.length_cons] at enough
        have brace := closed_cons (c := '}') (by simp) rest
        have first := reads fuel _ (by omega) brace
        simp [writeMembers, quote, readMembers, skipSpace_quote, skipSpace_colon, readString_escaped, first,
          brace.skipSpace]
      | cons m members =>
        simp only [writeMembers, quote, List.length_append, List.length_cons] at enough
        have comma := closed_cons (c := ',') (by simp) (writeMembers (m :: members) ++ some '}' :: rest)
        have first := reads fuel _ (by omega) comma
        have inner : readMembers fuel (writeMembers (m :: members) ++ some '}' :: rest) = some (m :: members, rest) :=
          ih (by simp) names each (by omega)
        simp [writeMembers, quote, readMembers, skipSpace_quote, skipSpace_colon, readString_escaped, first,
          comma.skipSpace, inner]

/-- Without its sign a number is whatever begins with a digit. -/
theorem readValue_digit {fuel : Nat} {c : Char} (digit : c.isDigit) (rest : Scanned) :
    readValue (fuel + 1) (some c :: rest) =
      (readNumber false (some c :: rest)).map fun (n, rest) => (.number n, rest) := by
  have different {d : Char} (other : d.isDigit = false) : c ≠ d := by
    rintro rfl
    exact Bool.false_ne_true (other.symm.trans digit)
  rw [readValue, (digit_begins digit rest).skipSpace]
  split
  case h_8 => rfl
  all_goals
    rename_i same
    exact absurd (Option.some.inj (List.cons.inj same).1) (different rfl)

theorem readValue_array (fuel : Nat) {rest : Scanned} (begins : Begins rest) :
    readValue (fuel + 1) (some '[' :: rest) =
      (readItems fuel rest).map fun (items, rest) => (.array items, rest) := by
  have front : skipSpace (some '[' :: rest) = some '[' :: rest := rfl
  obtain ⟨c, tail, rfl, _, different⟩ := id begins
  simp only [readValue, front, begins.skipSpace]
  split
  · rename_i same
    cases same
    exact absurd rfl different
  · rfl

theorem readValue_object (fuel : Nat) (rest : Scanned) :
    readValue (fuel + 1) (some '{' :: some '"' :: rest) =
      (readMembers fuel (some '"' :: rest)).map fun (members, rest) => (.object members, rest) := by
  rfl

theorem writeItems_begins {j : Json} (written : Written j) (items : List Json) :
    Begins (writeItems (j :: items)) := by
  cases items with
  | nil => exact written.begins
  | cons k items => exact written.begins.append _

theorem writeMembers_begins (m : Scanned × Json) (members : List (Scanned × Json)) :
    ∃ tail, writeMembers (m :: members) = some '"' :: tail := by
  cases members <;> exact ⟨_, rfl⟩

theorem Written.reads {j : Json} (written : Written j) : Reads j := by
  induction written with
  | null =>
    rintro (_ | fuel) rest enough closed
    · omega
    · rfl
  | bool b =>
    rintro (_ | fuel) rest enough closed
    · omega
    · cases b <;> rfl
  | number n =>
    rintro (_ | fuel) rest enough closed
    · omega
    · have read := readNumber_decimal n closed
      cases digits : decimal n with
      | nil => exact absurd digits (decimal_ne_nil n)
      | cons c cs =>
        have digit : c.isDigit := decimal_digits (n := n) (by simp [digits])
        have form : (ofNat n).write = some c :: cs.map some := by
          simp [ofNat, write, Number.write, digits]
        rw [digits] at read
        rw [form, List.cons_append, readValue_digit digit]
        simpa [ofNat, digits] using read
  | string cs =>
    rintro (_ | fuel) rest enough closed
    · omega
    · simp [write, quote, readValue, skipSpace_quote, readString_escaped]
  | @array items each ih =>
    rintro (_ | fuel) rest enough closed
    · omega
    · cases items with
      | nil => rfl
      | cons j items =>
        rw [write, List.cons_append, List.length_cons, List.length_append] at enough
        rw [write, List.cons_append, List.cons_append, List.append_assoc, List.singleton_append]
        have begins := (writeItems_begins (each j List.mem_cons_self) items).append (some ']' :: rest)
        rw [readValue_array fuel begins, readItems_write (by simp) ih rest (by simp at enough; omega)]
        rfl
  | @object members names values ih =>
    rintro (_ | fuel) rest enough closed
    · omega
    · cases members with
      | nil => rfl
      | cons m members =>
        rw [write, List.cons_append, List.length_cons, List.length_append] at enough
        rw [write, List.cons_append, List.cons_append, List.append_assoc, List.singleton_append]
        have read : readMembers fuel (writeMembers (m :: members) ++ some '}' :: rest) = some (m :: members, rest) :=
          readMembers_write (by simp) names ih rest (by simp at enough; omega)
        obtain ⟨tail, form⟩ := writeMembers_begins m members
        rw [form, List.cons_append] at read ⊢
        rw [readValue_object, read]
        rfl

/-- Reading a written document gives the document back. -/
theorem parse_write {j : Json} (written : Written j) : parse j.write = some j := by
  have read := written.reads (2 * j.write.length + 2) [] (by omega) (.inl rfl)
  rw [List.append_nil] at read
  simp [parse, read, skipSpace]

end Fairway.Json
