import Fairway.Proofs.Text.Cuts
import Fairway.Target

namespace Fairway.Target

/-- What ends the scheme. -/
abbrev mark : List Char := [':', '/', '/']

theorem solid_mark : Solid mark := by decide

/-- The targets whose text says where each part ends. -/
structure WellFormed (t : Target) : Prop where
  scheme : t.scheme ≠ ""
  unmarked : ¬ mark <:+: t.scheme.toList
  authority : '/' ∉ t.authority.toList
  endpoint : t.endpoint ≠ ""

/-- How the text behind the mark is shared out: by its first slash, if it has one. -/
inductive Divided (rest : List Char) : List Char → List Char → Prop
  | slash {authority endpoint} (cut : FirstCut ['/'] rest authority endpoint) : Divided rest authority endpoint
  | whole (free : '/' ∉ rest) : Divided rest [] rest

/-- The texts that stand for no target. -/
inductive Malformed (cs : List Char) : Prop
  | unmarked (outside : ¬ mark <:+: cs)
  | schemeless {rest} (cut : FirstCut mark cs [] rest)
  | bare {scheme} (cut : FirstCut mark cs scheme [])
  | closed {scheme rest authority} (cut : FirstCut mark cs scheme rest) (slash : FirstCut ['/'] rest authority [])

variable {s : String} {scheme rest authority endpoint : List Char}

/-- There is one way to share out a text, which reading takes. -/
theorem divided_iff :
    Divided rest authority endpoint ↔ (splitFirst ['/'] rest).getD ([], rest) = (authority, endpoint) := by
  constructor
  · rintro (cut | free)
    · rw [splitFirst_eq_some_iff.2 cut, Option.getD_some]
    · rw [splitFirst_eq_none_iff.2 (mt (List.singleton_infix_iff _ _).1 free), Option.getD_none]
  · intro found
    cases split : splitFirst ['/'] rest with
    | none =>
      have free := mt (List.singleton_infix_iff _ _).2 (splitFirst_eq_none_iff.1 split)
      rw [split, Option.getD_none] at found
      cases found
      exact .whole free
    | some parts =>
      rw [split, Option.getD_some] at found
      rw [found] at split
      exact .slash (splitFirst_eq_some_iff.1 split)

theorem Divided.slash_free (divided : Divided rest authority endpoint) : '/' ∉ authority := by
  cases divided with
  | slash cut => exact cut.free
  | whole free => simp

theorem parse_of_unmarked (outside : ¬ mark <:+: s.toList) : parse s = .error (.malformedTarget s) := by
  rw [parse, splitFirst_eq_none_iff.2 outside]

theorem parse_of_cut (cut : FirstCut mark s.toList scheme rest) (divided : Divided rest authority endpoint) :
    parse s = if scheme = [] ∨ endpoint = [] then .error (.malformedTarget s)
      else .ok ⟨String.ofList scheme, String.ofList authority, String.ofList endpoint⟩ := by
  simp only [parse, splitFirst_eq_some_iff.2 cut, divided_iff.1 divided, Bool.or_eq_true, List.isEmpty_iff]

theorem cut_or_unmarked (s : String) :
    (∃ scheme rest authority endpoint, FirstCut mark s.toList scheme rest ∧ Divided rest authority endpoint) ∨
      ¬ mark <:+: s.toList := by
  cases found : splitFirst mark s.toList with
  | none => exact .inr (splitFirst_eq_none_iff.1 found)
  | some parts => exact .inl ⟨_, _, _, _, splitFirst_eq_some_iff.1 found, divided_iff.2 rfl⟩

/-- A text that can be cut is malformed where a part is missing that has to be there. -/
theorem malformed_iff (cut : FirstCut mark s.toList scheme rest) (divided : Divided rest authority endpoint) :
    Malformed s.toList ↔ scheme = [] ∨ endpoint = [] := by
  constructor
  · rintro (outside | other | other | ⟨other, slash⟩)
    · exact absurd cut.infix outside
    · exact .inl (cut.unique other).1
    · obtain ⟨_, rfl⟩ := cut.unique other
      cases divided with
      | slash inner => simpa using inner.whole
      | whole => exact .inr rfl
    · obtain ⟨_, rfl⟩ := cut.unique other
      cases divided with
      | slash inner => exact .inr (inner.unique slash).2
      | whole free => exact absurd ((List.singleton_infix_iff _ _).1 slash.infix) free
  · rintro (rfl | rfl)
    · exact .schemeless cut
    · cases divided with
      | slash inner => exact .closed cut inner
      | whole => exact .bare cut

theorem parse_eq_error_iff {e : InputError} :
    parse s = .error e ↔ e = .malformedTarget s ∧ Malformed s.toList := by
  rcases cut_or_unmarked s with ⟨scheme, rest, authority, endpoint, cut, divided⟩ | outside
  · rw [parse_of_cut cut divided, malformed_iff cut divided]
    split
    case isTrue missing => simp [missing, eq_comm]
    case isFalse there => simp [there]
  · have malformed : Malformed s.toList := .unmarked outside
    rw [parse_of_unmarked outside]
    simp [malformed, eq_comm]

/-- What is read from a text is well formed. -/
theorem wellFormed_of_parse {t : Target} (read : parse s = .ok t) : t.WellFormed := by
  rcases cut_or_unmarked s with ⟨scheme, rest, authority, endpoint, cut, divided⟩ | outside
  · rw [parse_of_cut cut divided] at read
    split at read
    case isTrue => cases read
    case isFalse there =>
      cases read
      obtain ⟨named, served⟩ := not_or.1 there
      have solid := cut
      rw [cut.whole, firstCut_append_iff solid_mark (by simp)] at solid
      refine ⟨?_, ?_, ?_, ?_⟩
      · simpa [← String.toList_inj] using named
      · rwa [String.toList_ofList]
      · rw [String.toList_ofList]
        exact divided.slash_free
      · simpa [← String.toList_inj] using served
  · rw [parse_of_unmarked outside] at read
    cases read

theorem toList_display (t : Target) :
    t.display.toList = t.scheme.toList ++ mark ++ (t.authority.toList ++ ['/'] ++ t.endpoint.toList) := by
  simp [display]

/-- The text of a well-formed target stands for it. -/
theorem WellFormed.parse_display {t : Target} (formed : t.WellFormed) : parse t.display = .ok t := by
  have cut : FirstCut mark t.display.toList t.scheme.toList
      (t.authority.toList ++ ['/'] ++ t.endpoint.toList) := by
    rw [toList_display, firstCut_append_iff solid_mark (by simp)]
    exact formed.unmarked
  have slash : FirstCut ['/'] (t.authority.toList ++ ['/'] ++ t.endpoint.toList) t.authority.toList
      t.endpoint.toList := by
    rw [firstCut_singleton_iff]
    exact formed.authority
  have there : ¬ (t.scheme.toList = [] ∨ t.endpoint.toList = []) := by
    rw [not_or]
    exact ⟨by simpa using formed.scheme, by simpa using formed.endpoint⟩
  rw [parse_of_cut cut (.slash slash), if_neg there]
  simp only [String.ofList_toList]

/-- How targets and texts stand for each other. -/
structure Correspondence : Prop where
  /-- Reading the text of a target gives the target back exactly if it is well formed. -/
  displayed : ∀ t : Target, parse t.display = .ok t ↔ t.WellFormed
  /-- The well-formed targets are those that are read from some text. -/
  given : ∀ t : Target, (∃ s, parse s = .ok t) ↔ t.WellFormed
  /-- An error names the text, and arises exactly where that is malformed. -/
  refused : ∀ s e, parse s = .error e ↔ e = .malformedTarget s ∧ Malformed s.toList

theorem parse_inverts_display : Correspondence where
  displayed _ := ⟨wellFormed_of_parse, WellFormed.parse_display⟩
  given t := ⟨fun ⟨_, read⟩ => wellFormed_of_parse read, fun formed => ⟨t.display, formed.parse_display⟩⟩
  refused _ _ := parse_eq_error_iff

/-- The mark may begin right behind a colon of the scheme, and stand in the endpoint again. -/
example : parse "a:://b/c://d" = .ok ⟨"a:", "b", "c://d"⟩ := by cbv

end Fairway.Target
