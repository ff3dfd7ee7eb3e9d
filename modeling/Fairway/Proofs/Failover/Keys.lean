import Fairway.Failover.Coordinator

namespace Fairway

theorem Instance.slash_free {i : Instance} (valid : i.validate = .ok ()) :
    '/' ∉ i.name.toList ∧ '/' ∉ i.group.toList ∧ '/' ∉ i.address.toList := by
  unfold Instance.validate at valid
  split at valid
  case isTrue => cases valid
  case isFalse =>
    split at valid
    case isTrue => cases valid
    case isFalse =>
      split at valid
      · cases valid
      · rename_i none_found
        have free := List.find?_eq_none.1 none_found
        simpa [Instance.fields] using free

/-- Cutting the text of an identity at its slashes recovers the three fields, the group even where it is
empty. -/
theorem Instance.pieces_display {i : Instance} (valid : i.validate = .ok ()) :
    pieces '/' i.display.toList = [i.name.toList, i.group.toList, i.address.toList] := by
  obtain ⟨name, group, address⟩ := i.slash_free valid
  have text : i.display.toList =
      i.name.toList ++ '/' :: (i.group.toList ++ '/' :: i.address.toList) := by
    simp [Instance.display]
  rw [text, pieces_append_cons name, pieces_append_cons group, pieces_of_free address]

theorem Instance.display_injective {i j : Instance} (validI : i.validate = .ok ())
    (validJ : j.validate = .ok ()) (same : i.display = j.display) : i = j := by
  have cut := i.pieces_display validI
  rw [same, j.pieces_display validJ] at cut
  obtain ⟨name, group, address⟩ : j.name = i.name ∧ j.group = i.group ∧ j.address = i.address := by
    simpa [String.toList_inj] using cut
  cases i
  cases j
  simp_all

namespace Coordinator

theorem toList_key (c : Coordinator) (i : Instance) :
    (c.key i).toList = c.root.toList ++ '/' :: i.display.toList := by
  simp [key, String.toList_append]

/-- No two valid instances share a record. -/
theorem key_injective {c : Coordinator} {i j : Instance} (validI : i.validate = .ok ())
    (validJ : j.validate = .ok ()) (same : c.key i = c.key j) : i = j := by
  have chars := congrArg String.toList same
  simp only [key, String.toList_append, List.append_cancel_left_eq] at chars
  exact Instance.display_injective validI validJ (String.toList_inj.1 chars)

/-- Cut at its slashes, a key ends in three pieces for the instance. Before them are those of the root. -/
theorem pieces_key (c : Coordinator) {i : Instance} (valid : i.validate = .ok ()) :
    pieces '/' (c.key i).toList =
      pieces '/' c.root.toList ++ [i.name.toList, i.group.toList, i.address.toList] := by
  rw [toList_key, pieces_append_sep, i.pieces_display valid]

/-- Before three pieces for an instance, the pieces of a key tell the root. -/
theorem eq_of_pieces {c d : Coordinator} {front back : List (List Char)}
    (same : pieces '/' c.root.toList ++ front = pieces '/' d.root.toList ++ back)
    (long : front.length = back.length) : c = d := by
  have chars := congrArg (['/'].intercalate ·) (List.append_inj' same long).1
  simp only [intercalate_pieces] at chars
  cases c
  cases d
  simpa [String.toList_inj] using chars

/-- Coordinators with different roots share no record. -/
theorem root_of_key_eq {c d : Coordinator} {i j : Instance} (validI : i.validate = .ok ())
    (validJ : j.validate = .ok ()) (same : c.key i = d.key j) : c = d := by
  have cut := c.pieces_key validI
  rw [same, d.pieces_key validJ] at cut
  exact eq_of_pieces cut.symm rfl

theorem parseKey_key (c : Coordinator) {i : Instance} (valid : i.validate = .ok ()) : c.parseKey (c.key i) = .ok i := by
  have front : c.root.toList ++ '/' :: i.display.toList = (c.root.toList ++ ['/']) ++ i.display.toList := by simp
  rw [parseKey, toList_key, front, after?_append, Option.map_some, i.pieces_display valid]
  simp [valid, Except.map]

/-- A key that parses is the one of the instance it parses to. -/
theorem key_of_parseKey {c : Coordinator} {key : String} {i : Instance} (parsed : c.parseKey key = .ok i) :
    i.validate = .ok () ∧ key = c.key i := by
  unfold parseKey at parsed
  split at parsed
  case h_2 => cases parsed
  case h_1 name group address cut =>
    obtain ⟨rest, behind, three⟩ := Option.map_eq_some_iff.1 cut
    have text : rest = name ++ '/' :: (group ++ '/' :: address) := by
      rw [← intercalate_pieces '/' rest, three]
      simp [List.intercalate_cons_cons]
    cases checked : Instance.validate ⟨String.ofList name, String.ofList group, String.ofList address⟩ with
    | error e => simp [checked, Except.map] at parsed
    | ok =>
      obtain rfl : _ = i := by simpa [checked, Except.map] using parsed
      refine ⟨checked, String.toList_inj.1 ?_⟩
      rw [eq_append_of_after? behind, toList_key, text]
      simp [Instance.display]

/-- What is cut into three pieces behind the root has them behind those of the root. -/
theorem pieces_of_cut {c : Coordinator} {key : String} {name group address : List Char}
    (cut : (after? (c.root.toList ++ ['/']) key.toList).map (pieces '/') = some [name, group, address]) :
    pieces '/' key.toList = pieces '/' c.root.toList ++ [name, group, address] := by
  obtain ⟨rest, behind, three⟩ := Option.map_eq_some_iff.1 cut
  rw [eq_append_of_after? behind, List.append_assoc, List.singleton_append, pieces_append_sep, three]

/-- Under another root a key is malformed, and not only an instance that does not hold up. -/
theorem parseKey_of_ne {c d : Coordinator} {i : Instance} (valid : i.validate = .ok ()) (different : c ≠ d) :
    d.parseKey (c.key i) = .error (.malformedFailoverKey (c.key i)) := by
  unfold parseKey
  split
  case h_1 name group address cut =>
    have same := (c.pieces_key valid).symm.trans (pieces_of_cut cut)
    exact absurd (eq_of_pieces same rfl) different
  case h_2 => rfl

/-- Keys under two roots, each of which may be written with slashes at its end. -/
structure OneToOne (first second : String) : Prop where
  /-- The slashes at the end do not count, and no others are taken away. -/
  trimmed : (∃ n, first.toList = (ofRoot first).root.toList ++ List.replicate n '/') ∧
    (ofRoot first).root.toList.getLast? ≠ some '/'
  /-- A key parses to the instance it was made for, under the root it was made for and under no other. -/
  parses : ∀ i : Instance, i.validate = .ok () → (ofRoot second).parseKey ((ofRoot first).key i) =
    if (ofRoot first).root = (ofRoot second).root then .ok i else .error (.malformedFailoverKey ((ofRoot first).key i))
  /-- No two pairs of a root and a valid instance share a key. -/
  apart : ∀ i j : Instance, i.validate = .ok () → j.validate = .ok () → (ofRoot first).key i = (ofRoot second).key j →
    (ofRoot first).root = (ofRoot second).root ∧ i = j
  /-- What parses is valid, and its key is the text that was parsed. -/
  exact : ∀ key i, (ofRoot first).parseKey key = .ok i → i.validate = .ok () ∧ (ofRoot first).key i = key

/-- Whatever the roots, also where one is empty or goes on where the other ends. -/
theorem keys_oneToOne (first second : String) : OneToOne first second where
  trimmed := by
    rw [ofRoot, String.toList_ofList]
    exact ⟨eq_trimEnd_append '/' first.toList, getLast?_trimEnd '/' first.toList⟩
  parses i valid := by
    split
    case isTrue same =>
      have one : ofRoot first = ofRoot second := congrArg Coordinator.mk same
      rw [one]
      exact parseKey_key _ valid
    case isFalse different => exact parseKey_of_ne valid fun same => different (congrArg root same)
  apart i j validI validJ same := by
    have one := root_of_key_eq validI validJ same
    exact ⟨congrArg root one, key_injective validI validJ (one ▸ same)⟩
  exact key i parsed := by
    obtain ⟨valid, same⟩ := key_of_parseKey parsed
    exact ⟨valid, same.symm⟩

/-- The key of an instance in no group, under a root that goes on where the other ends. -/
theorem oneToOne_nested : OneToOne "/config//" "/config/failover/" ∧
    (ofRoot "/config/failover/").parseKey ((ofRoot "/config//").key ⟨"failover", "", "10.0.0.1:80"⟩) =
      .error (.malformedFailoverKey "/config/failover//10.0.0.1:80") :=
  ⟨keys_oneToOne _ _, (keys_oneToOne "/config//" "/config/failover/").parses ⟨"failover", "", "10.0.0.1:80"⟩ rfl⟩

end Coordinator

end Fairway
