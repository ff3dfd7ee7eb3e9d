namespace Fairway

/-- Stored values are bytes. -/
abbrev Bytes := List UInt8

namespace Utf8

def encodeChar (c : Char) : Bytes :=
  let n := c.toNat
  if n < 0x80 then [UInt8.ofNat n]
  else if n < 0x800 then [UInt8.ofNat (0xc0 + n / 0x40), UInt8.ofNat (0x80 + n % 0x40)]
  else if n < 0x10000 then
    [UInt8.ofNat (0xe0 + n / 0x1000), UInt8.ofNat (0x80 + n / 0x40 % 0x40),
      UInt8.ofNat (0x80 + n % 0x40)]
  else
    [UInt8.ofNat (0xf0 + n / 0x40000), UInt8.ofNat (0x80 + n / 0x1000 % 0x40),
      UInt8.ofNat (0x80 + n / 0x40 % 0x40), UInt8.ofNat (0x80 + n % 0x40)]

def encode (s : String) : Bytes := s.toList.flatMap encodeChar

/-- A first byte says how many bytes follow it, which values the second one may take and what it
adds to the code point. -/
structure Lead where
  follow : Nat
  low : Nat
  high : Nat
  bits : Nat

/-- No lead admits an overlong form, a surrogate or a code point past the last. -/
def lead? (b : Nat) : Option Lead :=
  if b < 0x80 then some ⟨0, 0, 0, b⟩
  else if b < 0xc2 then none
  else if b < 0xe0 then some ⟨1, 0x80, 0xbf, b - 0xc0⟩
  else if b == 0xe0 then some ⟨2, 0xa0, 0xbf, 0⟩
  else if b == 0xed then some ⟨2, 0x80, 0x9f, 0xd⟩
  else if b < 0xf0 then some ⟨2, 0x80, 0xbf, b - 0xe0⟩
  else if b == 0xf0 then some ⟨3, 0x90, 0xbf, 0⟩
  else if b < 0xf4 then some ⟨3, 0x80, 0xbf, b - 0xf0⟩
  else if b == 0xf4 then some ⟨3, 0x80, 0x8f, 4⟩
  else none

/-- The continuation bytes after a lead: the code point when all are there, and the bytes left
over. -/
def gather (follow low high acc : Nat) : Bytes → Option Nat × Bytes
  | [] => (if follow == 0 then some acc else none, [])
  | b :: rest =>
    match follow with
    | 0 => (some acc, b :: rest)
    | k + 1 =>
      if low ≤ b.toNat ∧ b.toNat ≤ high then gather k 0x80 0xbf (acc * 0x40 + (b.toNat - 0x80)) rest
      else (none, b :: rest)

theorem gather_length (follow low high acc : Nat) (bs : Bytes) :
    (gather follow low high acc bs).2.length ≤ bs.length := by
  induction bs generalizing follow low high acc with
  | nil => simp [gather]
  | cons b rest ih =>
    cases follow with
    | zero => simp [gather]
    | succ k =>
      simp only [gather]
      split
      · exact Nat.le_succ_of_le (ih _ _ _ _)
      · exact Nat.le_refl _

/-- The characters the bytes spell. A longest run of bytes that begins no character, or breaks off
inside one, stands as a single `none`. -/
def decode : Bytes → List (Option Char)
  | [] => []
  | b :: rest =>
    match lead? b.toNat with
    | none => none :: decode rest
    | some l =>
      let tail := gather l.follow l.low l.high l.bits rest
      tail.1.map Char.ofNat :: decode tail.2
termination_by bs => bs.length
decreasing_by
  · simp
  · have := gather_length l.follow l.low l.high l.bits rest
    simp only [List.length_cons]
    omega

/-- The text, when every byte belongs to a character. -/
def decode? (bs : Bytes) : Option String :=
  ((decode bs).mapM id).map String.ofList

/-- The text with U+FFFD in place of what does not decode. -/
def decodeLossy (bs : Bytes) : String :=
  String.ofList ((decode bs).map (·.getD '\ufffd'))

end Utf8

end Fairway
