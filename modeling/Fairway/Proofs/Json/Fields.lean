import Fairway.Json.Stored
import Fairway.Proofs.Json.Documents
import Fairway.Proofs.Text.Encoding

namespace Fairway.Json

/-- Every place in the text is a character. -/
def Spelled (cs : Scanned) : Prop := ∃ text : List Char, cs = text.map some

theorem Spelled.append {cs ds : Scanned} (front : Spelled cs) (back : Spelled ds) : Spelled (cs ++ ds) := by
  obtain ⟨a, rfl⟩ := front
  obtain ⟨b, rfl⟩ := back
  exact ⟨a ++ b, by simp⟩

theorem Spelled.cons {cs : Scanned} (c : Char) (spelled : Spelled cs) : Spelled (some c :: cs) := by
  obtain ⟨text, rfl⟩ := spelled
  exact ⟨c :: text, rfl⟩

theorem spelled_quote (cs : List Char) : Spelled (quote (escaped cs)) :=
  .cons '"' (.append ⟨_, rfl⟩ ⟨['"'], rfl⟩)

theorem spelled_writeItems {items : List Json} (each : ∀ j ∈ items, Spelled j.write) :
    Spelled (writeItems items) := by
  induction items with
  | nil => exact ⟨[], rfl⟩
  | cons j items ih =>
    have first := each j List.mem_cons_self
    have inner := ih fun j member => each j (List.mem_cons_of_mem _ member)
    cases items with
    | nil => exact first
    | cons => exact first.append (.cons ',' inner)

theorem spelled_writeMembers {members : List (Scanned × Json)}
    (names : ∀ m ∈ members, ∃ cs, m.1 = escaped cs) (each : ∀ m ∈ members, Spelled m.2.write) :
    Spelled (writeMembers members) := by
  induction members with
  | nil => exact ⟨[], rfl⟩
  | cons m members ih =>
    obtain ⟨name, j⟩ := m
    obtain ⟨cs, rfl⟩ := names _ List.mem_cons_self
    have first := (spelled_quote cs).append (.cons ':' (each _ List.mem_cons_self))
    have inner := ih (fun m member => names m (List.mem_cons_of_mem _ member))
      fun m member => each m (List.mem_cons_of_mem _ member)
    cases members with
    | nil => exact first
    | cons => exact first.append (.cons ',' inner)

theorem Written.spelled {j : Json} (written : Written j) : Spelled j.write := by
  induction written with
  | null => exact ⟨_, rfl⟩
  | bool b => cases b <;> exact ⟨_, rfl⟩
  | number n => exact ⟨_, rfl⟩
  | string cs => exact spelled_quote cs
  | array each ih => exact .cons '[' (.append (spelled_writeItems ih) ⟨[']'], rfl⟩)
  | object names values ih => exact .cons '{' (.append (spelled_writeMembers names ih) ⟨['}'], rfl⟩)

theorem toList_render {j : Json} (written : Written j) : j.render.toList.map some = j.write := by
  obtain ⟨cs, spelled⟩ := written.spelled
  simp [render, text, spelled]

theorem ofBytes?_toBytes {j : Json} (written : Written j) : ofBytes? j.toBytes = some j := by
  rw [ofBytes?, toBytes, Utf8.decode_encode, toList_render written, parse_write written]

/-- Digits alone are a number. -/
theorem ofBytes?_decimal (n : Nat) : ofBytes? (Utf8.encode (String.ofList (decimal n))) = some (ofNat n) := by
  have written := Written.number n
  have digits : (ofNat n).render.toList = decimal n := by
    refine (List.map_inj_right fun _ _ => Option.some.inj).1 ?_
    rw [toList_render written]
    simp [ofNat, write, Number.write]
  have form : (ofNat n).toBytes = Utf8.encode (String.ofList (decimal n)) := by
    rw [toBytes, ← digits, String.ofList_toList]
  rw [← form, ofBytes?_toBytes written]

/-- A name that is written as it is. -/
def Bare (name : String) : Prop := name.toList.all fun c => escapeChar c == [c]

theorem escaped_of_bare {cs : List Char} (bare : ∀ c ∈ cs, escapeChar c = [c]) : cs.map some = escaped cs := by
  induction cs with
  | nil => rfl
  | cons c cs ih =>
    have inner := ih fun d listed => bare d (List.mem_cons_of_mem _ listed)
    rw [escaped] at inner ⊢
    simp [bare c List.mem_cons_self, inner]

theorem Bare.escaped {name : String} (bare : Bare name) : name.toList.map some = escaped name.toList :=
  escaped_of_bare fun c member => beq_iff_eq.1 (List.all_eq_true.1 bare c member)

theorem Bare.resolve {name : String} (bare : Bare name) : resolve (name.toList.map some) = some name.toList := by
  rw [bare.escaped, resolve_escaped]

/-- The members of an object with bare names. -/
def named (fields : List (String × Json)) : List (Scanned × Json) := fields.map fun f => member f.1 f.2

variable {fields : List (String × Json)}

theorem written_named (bare : ∀ f ∈ fields, Bare f.1) (values : ∀ f ∈ fields, Written f.2) :
    Written (.object (named fields)) := by
  refine .object ?_ ?_
  · intro m inside
    obtain ⟨f, listed, rfl⟩ := List.mem_map.1 inside
    exact ⟨_, (bare f listed).escaped⟩
  · intro m inside
    obtain ⟨f, listed, rfl⟩ := List.mem_map.1 inside
    exact values f listed

theorem resolveMembers_named (bare : ∀ f ∈ fields, Bare f.1) :
    resolveMembers (named fields) = some (fields.map fun f => (f.1.toList, f.2)) := by
  induction fields with
  | nil => rfl
  | cons f fields ih =>
    have inner := ih fun g listed => bare g (List.mem_cons_of_mem _ listed)
    have name := (bare f List.mem_cons_self).resolve
    have split : named (f :: fields) = member f.1 f.2 :: named fields := rfl
    rw [resolveMembers] at inner ⊢
    simp [split, member, name, inner]

theorem valuesOf_named (name : String) :
    valuesOf name (fields.map fun f => (f.1.toList, f.2)) = (fields.filter (·.1 == name)).map Prod.snd := by
  have same (f : String × Json) : (f.1.toList == name.toList) = (f.1 == name) := by
    rw [Bool.eq_iff_iff, beq_iff_eq, beq_iff_eq, String.toList_inj]
  simp [valuesOf, List.filter_map, Function.comp_def, same]

theorem given_named (bare : ∀ f ∈ fields, Bare f.1) (names : List String) :
    given names (.object (named fields)) =
      names.mapM (givenMember (fields.map fun f => (f.1.toList, f.2))) := by
  simp [given, resolveMembers_named bare]

theorem asText_ofText (s : String) : asText (ofText s) = some s := by
  have text : resolve ((s.toList.flatMap escapeChar).map some) = some s.toList := resolve_escaped s.toList
  simp [asText, ofText, text]

theorem asOption_ofText (s : String) : asOption asText (ofText s) = some (some s) := by
  rw [ofText, asOption, ← ofText, asText_ofText, Option.map_some]
  nofun

theorem asWeight_ofWeight (w : UInt32) : asWeight (ofWeight w) = some w := by
  have small : w.toNat < Nat.pow 2 32 := w.toNat_lt
  simp [asWeight, ofWeight, ofNat, ofDigitChars_decimal, small]

theorem strict_ofText (depth : Nat) (s : String) : strict depth (ofText s) := by
  have text : resolve ((s.toList.flatMap escapeChar).map some) = some s.toList := resolve_escaped s.toList
  simp [strict, ofText, text]

theorem strict_ofWeight (depth : Nat) (w : UInt32) : strict depth (ofWeight w) := by
  have small : w.toNat < Nat.pow 2 53 := Nat.lt_trans w.toNat_lt (by decide)
  simpa [strict, ofWeight, ofNat] using inRange_decimal small

/-- What the fields of a stored record hold. -/
inductive Scalar : Json → Prop
  | text (s) : Scalar (.ofText s)
  | weight (w) : Scalar (.ofWeight w)

theorem Scalar.written {j : Json} (scalar : Scalar j) : Written j := by
  cases scalar with
  | text s => exact .string s.toList
  | weight w => exact .number w.toNat

theorem Scalar.strict (depth : Nat) {j : Json} (scalar : Scalar j) : strict depth j := by
  cases scalar with
  | text s => exact strict_ofText depth s
  | weight w => exact strict_ofWeight depth w

theorem strictMembers_named (depth : Nat) (bare : ∀ f ∈ fields, Bare f.1)
    (values : ∀ f ∈ fields, strict depth f.2) : strictMembers depth (named fields) := by
  induction fields with
  | nil => rfl
  | cons f fields ih =>
    have inner := ih (fun g listed => bare g (List.mem_cons_of_mem _ listed))
      fun g listed => values g (List.mem_cons_of_mem _ listed)
    have name := (bare f List.mem_cons_self).resolve
    have value := values f List.mem_cons_self
    have split : named (f :: fields) = member f.1 f.2 :: named fields := rfl
    simp [split, member, strictMembers, name, value, inner]

end Fairway.Json
