import Fairway.Json.Read
import Fairway.Json.Write

namespace Fairway.Json

def escaped (cs : List Char) : Scanned := (cs.flatMap escapeChar).map some

theorem escaped_cons (c : Char) (cs : List Char) :
    escaped (c :: cs) = (escapeChar c).map some ++ escaped cs := by
  simp [escaped]

/-- A character is written as one of three forms: a letter behind a backslash, its code in four
hexadecimal digits, or itself. -/
theorem escapeChar_cases (c : Char) :
    (∃ letter, escapeChar c = ['\\', letter] ∧ letter ≠ 'u' ∧ escapeLetters.lookup letter = some c) ∨
    (c.toNat < 0x20 ∧ escapeChar c =
      ['\\', 'u', '0', '0', Nat.digitChar (c.toNat / 16), Nat.digitChar (c.toNat % 16)]) ∨
    (escapeChar c = [c] ∧ c ≠ '"' ∧ c ≠ '\\' ∧ 0x20 ≤ c.toNat) := by
  unfold escapeChar
  split
  · exact .inl ⟨'"', rfl, by decide, rfl⟩
  · exact .inl ⟨'\\', rfl, by decide, rfl⟩
  · exact .inl ⟨'b', rfl, by decide, rfl⟩
  · exact .inl ⟨'f', rfl, by decide, rfl⟩
  · exact .inl ⟨'n', rfl, by decide, rfl⟩
  · exact .inl ⟨'r', rfl, by decide, rfl⟩
  · exact .inl ⟨'t', rfl, by decide, rfl⟩
  · rename_i quote backslash _ _ _ _ _
    split
    case isTrue low => exact .inr (.inl ⟨low, rfl⟩)
    case isFalse high => exact .inr (.inr ⟨rfl, quote, backslash, Nat.not_lt.1 high⟩)

theorem hexDigit?_digitChar : ∀ n < 16, hexDigit? (Nat.digitChar n) = some n := by
  decide

theorem hexFour?_low {n : Nat} (low : n < 0x20) :
    hexFour? (some '0') (some '0') (some (Nat.digitChar (n / 16))) (some (Nat.digitChar (n % 16))) =
      some n := by
  have high := hexDigit?_digitChar (n / 16) (by omega)
  have unit := hexDigit?_digitChar (n % 16) (by omega)
  have zero : hexDigit? '0' = some 0 := rfl
  have value : ((0 * 16 + 0) * 16 + n / 16) * 16 + n % 16 = n := by omega
  simp only [hexFour?, Option.bind_eq_bind, Option.bind_some, zero, high, unit, value, Option.pure_def]

/-- What may stand in a string as itself. -/
def Plain (c : Char) : Prop := c ≠ '"' ∧ c ≠ '\\' ∧ 0x20 ≤ c.toNat

instance (c : Char) : Decidable (Plain c) := inferInstanceAs (Decidable (_ ∧ _ ∧ _))

theorem plain_digitChar : ∀ n < 16, Plain (Nat.digitChar n) := by
  decide

theorem readString_plain {c : Char} (plain : Plain c) (rest : Scanned) :
    readString (some c :: rest) = (readString rest).map fun (raw, rest) => (some c :: raw, rest) := by
  obtain ⟨quote, backslash, high⟩ := plain
  rw [readString.eq_5 c rest quote (fun _ _ => backslash) (fun _ _ _ => backslash), if_neg]
  exact not_or.2 ⟨backslash, Nat.not_lt.2 high⟩

theorem readString_escaped (cs : List Char) (rest : Scanned) :
    readString (escaped cs ++ some '"' :: rest) = some (escaped cs, rest) := by
  induction cs with
  | nil => rfl
  | cons c cs ih =>
    rw [escaped_cons]
    rcases escapeChar_cases c with ⟨letter, form, different, known⟩ | ⟨low, form⟩ | ⟨form, plain⟩
    · simp [form, readString, known, ih]
    · have zero : Plain '0' := by decide
      have high := plain_digitChar (c.toNat / 16) (by omega)
      have unit := plain_digitChar (c.toNat % 16) (by omega)
      simp [form, readString, startsHex, hexFour?_low low, readString_plain zero, readString_plain high,
        readString_plain unit, ih]
    · simp [form, readString_plain plain, ih]

theorem resolve_plain {c : Char} (plain : Plain c) (rest : Scanned) :
    resolve (some c :: rest) = (resolve rest).map (c :: ·) := by
  have backslash := plain.2.1
  rw [resolve.eq_4 c rest (fun _ _ _ _ _ _ => backslash) (fun _ _ _ => backslash), if_neg backslash]

/-- Resolving the escapes of a written text gives back the text. -/
theorem resolve_escaped (cs : List Char) : resolve (escaped cs) = some cs := by
  induction cs with
  | nil => rfl
  | cons c cs ih =>
    rw [escaped_cons]
    rcases escapeChar_cases c with ⟨letter, form, different, known⟩ | ⟨low, form⟩ | ⟨form, plain⟩
    · simp [form, resolve, different, known, ih]
    · have back : Char.ofNat c.toNat = c := Char.ofNat_toNat c
      have unpaired : ¬ (0xdc00 ≤ c.toNat ∧ c.toNat < 0xe000) := by omega
      have single : ¬ (0xd800 ≤ c.toNat ∧ c.toNat < 0xdc00) := by omega
      simp [form, resolve, hexFour?_low low, unpaired, single, ih, back]
    · simp [form, resolve_plain plain, ih]

end Fairway.Json
