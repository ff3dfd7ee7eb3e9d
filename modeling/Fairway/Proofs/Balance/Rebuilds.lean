import Mathlib.Tactic.ByContra
import Fairway.Proofs.Balance.Records

namespace Fairway

namespace Candidate

variable {C : Type}

/-- The entry that counts for a node: the first of its id that has both weights. -/
def first? (ready : List (Ready C)) (id : String) : Option (Candidate C) :=
  (ready.filterMap ofReady?).find? (·.id == id)

def weight (c : Candidate C) (write : Bool) : UInt32 := if write then c.write else c.read

/-- The same weights, where zero counts as one. -/
def SameWeights (c d : Candidate C) : Prop :=
  ∀ write, Track.normalise (c.weight write) = Track.normalise (d.weight write)

end Candidate

namespace PoolNode

variable {C : Type} {n m k : PoolNode C} {c : Candidate C}

/-- The same node with the same tracks. Its connection and group may be others. -/
structure Alike (n m : PoolNode C) : Prop where
  id : m.id = n.id
  track : ∀ write, m.track write = n.track write

theorem Alike.refl (n : PoolNode C) : n.Alike n := ⟨rfl, fun _ => rfl⟩

theorem Alike.trans (first : n.Alike m) (second : m.Alike k) : n.Alike k :=
  ⟨second.id.trans first.id, fun write => (second.track write).trans (first.track write)⟩

theorem alike_refresh (c : Candidate C) (n : PoolNode C) : n.Alike (n.refresh c) := ⟨rfl, fun _ => rfl⟩

theorem track_ofCandidate (c : Candidate C) (write : Bool) :
    (ofCandidate c).track write = Track.ofWeight (c.weight write) := by
  cases write <;> rfl

theorem isConfiguredAs_iff :
    n.isConfiguredAs c ↔ ∀ write, (n.track write).configured = Track.normalise (c.weight write) := by
  simp [isConfiguredAs, Track.isConfiguredAs, track, Candidate.weight]

theorem isConfiguredAs_ofCandidate (c : Candidate C) : (ofCandidate c).isConfiguredAs c :=
  isConfiguredAs_iff.2 fun write => by rw [track_ofCandidate]; rfl

theorem Alike.isConfiguredAs (alike : n.Alike m) (c : Candidate C) :
    m.isConfiguredAs c = n.isConfiguredAs c := by
  rw [Bool.eq_iff_iff, isConfiguredAs_iff, isConfiguredAs_iff]
  simp only [alike.track]

end PoolNode

namespace Pool

variable {C : Type} {nodes later last : Array (PoolNode C)} {candidates more : List (Candidate C)}
  {known chosen : List (String × Nat)} {c : Candidate C} {r : Nat} {id : String}

/-- What is added to the records is new records of candidates. -/
structure Extends (nodes later : Array (PoolNode C)) (candidates : List (Candidate C)) : Prop where
  old : ∀ (r : Nat) n, nodes[r]? = some n → ∃ m, later[r]? = some m ∧ n.Alike m
  new : ∀ (r : Nat) m, nodes.size ≤ r → later[r]? = some m → ∃ c ∈ candidates, (PoolNode.ofCandidate c).Alike m

namespace Extends

theorem refl (nodes : Array (PoolNode C)) (candidates : List (Candidate C)) : Extends nodes nodes candidates where
  old r n there := ⟨n, there, .refl n⟩
  new r m beyond there := by
    have inside := (Array.getElem?_eq_some_iff.1 there).1
    omega

theorem modify (nodes : Array (PoolNode C)) (r : Nat) (c : Candidate C) (candidates : List (Candidate C)) :
    Extends nodes (nodes.modify r (PoolNode.refresh c)) candidates where
  old s n there := by
    rw [Array.getElem?_modify, there]
    split
    · exact ⟨_, rfl, n.alike_refresh c⟩
    · exact ⟨n, rfl, .refl n⟩
  new s m beyond there := by
    have inside := (Array.getElem?_eq_some_iff.1 there).1
    rw [Array.size_modify] at inside
    omega

theorem push (nodes : Array (PoolNode C)) (c : Candidate C) :
    Extends nodes (nodes.push (PoolNode.ofCandidate c)) [c] where
  old r n there := by
    have inside := (Array.getElem?_eq_some_iff.1 there).1
    exact ⟨n, by rw [Array.getElem?_push, if_neg (by omega), there], .refl n⟩
  new r m beyond there := by
    rw [Array.getElem?_push] at there
    split at there
    · cases there
      exact ⟨c, List.mem_cons_self, .refl _⟩
    · have inside := (Array.getElem?_eq_some_iff.1 there).1
      omega

theorem size_le (ext : Extends nodes later candidates) : nodes.size ≤ later.size := by
  by_contra shorter
  obtain ⟨m, there, _⟩ := ext.old later.size _ (Array.getElem?_eq_getElem (by omega))
  have inside := (Array.getElem?_eq_some_iff.1 there).1
  omega

theorem trans (first : Extends nodes later candidates) (second : Extends later last more) :
    Extends nodes last (candidates ++ more) where
  old r n there := by
    obtain ⟨m, found, alike⟩ := first.old r n there
    obtain ⟨k, stays, again⟩ := second.old r m found
    exact ⟨k, stays, alike.trans again⟩
  new r k beyond there := by
    by_cases early : r < later.size
    · obtain ⟨c, member, alike⟩ := first.new r _ beyond (Array.getElem?_eq_getElem early)
      obtain ⟨_, found, again⟩ := second.old r _ (Array.getElem?_eq_getElem early)
      cases found.symm.trans there
      exact ⟨c, List.mem_append_left _ member, alike.trans again⟩
    · obtain ⟨c, member, alike⟩ := second.new r k (Nat.not_lt.1 early) there
      exact ⟨c, List.mem_append_right _ member, alike⟩

/-- Records keep their configured weights. -/
theorem isConfiguredAs (ext : Extends nodes later candidates) (inside : r < nodes.size) (c : Candidate C) :
    (later[r]?).any (·.isConfiguredAs c) = (nodes[r]?).any (·.isConfiguredAs c) := by
  obtain ⟨m, found, alike⟩ := ext.old r _ (Array.getElem?_eq_getElem inside)
  rw [found, Array.getElem?_eq_getElem inside, Option.any_some, Option.any_some, alike.isConfiguredAs]

end Extends

/-- All that can come of one more candidate: its id has been chosen already, its cached record is used again, or it
gets a new one. -/
theorem enlist_cases (known : List (String × Nat)) (nodes : Array (PoolNode C)) (chosen : List (String × Nat))
    (c : Candidate C) :
    (chosen.lookup c.id ≠ none ∧ enlist known (nodes, chosen) c = (nodes, chosen)) ∨
    (chosen.lookup c.id = none ∧ ∃ r, known.lookup c.id = some r ∧ (nodes[r]?).any (·.isConfiguredAs c) ∧
      enlist known (nodes, chosen) c = (nodes.modify r (PoolNode.refresh c), chosen ++ [(c.id, r)])) ∨
    (chosen.lookup c.id = none ∧ (∀ r, known.lookup c.id = some r → ¬(nodes[r]?).any (·.isConfiguredAs c)) ∧
      enlist known (nodes, chosen) c = (nodes.push (PoolNode.ofCandidate c), chosen ++ [(c.id, nodes.size)])) := by
  simp only [enlist]
  split
  case isTrue seen => exact .inl ⟨Option.isSome_iff_ne_none.1 seen, rfl⟩
  case isFalse unseen =>
    have new : chosen.lookup c.id = none := Option.not_isSome_iff_eq_none.1 unseen
    split
    · rename_i r reusable
      obtain ⟨found, fits⟩ := Option.filter_eq_some_iff.1 reusable
      exact .inr (.inl ⟨new, r, found, fits, rfl⟩)
    · rename_i unusable
      refine .inr (.inr ⟨new, fun r found fits => ?_, rfl⟩)
      rw [Option.filter_eq_none_iff] at unusable
      exact unusable r found fits

theorem extends_enlist (known : List (String × Nat)) (nodes : Array (PoolNode C)) (chosen : List (String × Nat))
    (c : Candidate C) : Extends nodes (enlist known (nodes, chosen) c).1 [c] := by
  rcases enlist_cases known nodes chosen c with ⟨_, same⟩ | ⟨_, r, _, _, same⟩ | ⟨_, _, same⟩
  · rw [same]
    exact .refl nodes [c]
  · rw [same]
    exact .modify nodes r c [c]
  · rw [same]
    exact .push nodes c

theorem extends_enlist_all (known : List (String × Nat)) (nodes : Array (PoolNode C))
    (chosen : List (String × Nat)) (candidates : List (Candidate C)) :
    Extends nodes (candidates.foldl (enlist known) (nodes, chosen)).1 candidates := by
  induction candidates generalizing nodes chosen with
  | nil => exact .refl nodes []
  | cons c candidates ih => exact (extends_enlist known nodes chosen c).trans (ih _ _)

theorem lookup_concat (chosen : List (String × Nat)) (other id : String) (r : Nat) :
    (chosen ++ [(other, r)]).lookup id =
      (chosen.lookup id).or (if other = id then some r else none) := by
  rw [List.lookup_append, List.lookup_cons, List.lookup_nil]
  by_cases same : other = id
  · simp [same]
  · have different : (id == other) = false := beq_false_of_ne (Ne.symm same)
    simp [different, same]

/-- An old record is chosen for an id that was not chosen before exactly if it is the cached one and the candidate
has its weights. -/
theorem lookup_enlist (old : r < nodes.size) :
    (enlist known (nodes, chosen) c).2.lookup id = some r ↔ chosen.lookup id = some r ∨
      chosen.lookup id = none ∧ c.id = id ∧ known.lookup id = some r ∧ (nodes[r]?).any (·.isConfiguredAs c) := by
  rcases enlist_cases known nodes chosen c with ⟨seen, same⟩ | ⟨new, s, found, fits, same⟩ | ⟨new, unfit, same⟩
  · rw [same]
    refine ⟨.inl, fun either => either.resolve_right ?_⟩
    rintro ⟨unseen, rfl, _⟩
    exact seen unseen
  · rw [same, lookup_concat]
    by_cases mine : c.id = id
    · subst mine
      simp only [new, found, Option.none_or, if_true, Option.some.injEq, reduceCtorEq, false_or, true_and]
      exact ⟨fun here => ⟨here, here ▸ fits⟩, And.left⟩
    · simp [mine]
  · rw [same, lookup_concat]
    by_cases mine : c.id = id
    · subst mine
      simp only [new, Option.none_or, if_true, Option.some.injEq, reduceCtorEq, false_or, true_and]
      exact ⟨fun here => by omega, fun ⟨found, fits⟩ => absurd fits (unfit r found)⟩
    · simp [mine]

theorem lookup_enlist_eq_none :
    (enlist known (nodes, chosen) c).2.lookup id = none ↔ chosen.lookup id = none ∧ c.id ≠ id := by
  rcases enlist_cases known nodes chosen c with ⟨seen, same⟩ | ⟨_, s, _, _, same⟩ | ⟨_, _, same⟩
  · rw [same]
    refine ⟨fun none_chosen => ⟨none_chosen, ?_⟩, And.left⟩
    rintro rfl
    exact seen none_chosen
  · simp [same, lookup_concat]
  · simp [same, lookup_concat]

theorem lookup_enlist_all (old : r < nodes.size) :
    (candidates.foldl (enlist known) (nodes, chosen)).2.lookup id = some r ↔ chosen.lookup id = some r ∨
      chosen.lookup id = none ∧ ∃ c, candidates.find? (·.id == id) = some c ∧ known.lookup id = some r ∧
        (nodes[r]?).any (·.isConfiguredAs c) := by
  induction candidates generalizing nodes chosen with
  | nil => simp
  | cons c candidates ih =>
    have ext := extends_enlist known nodes chosen c
    have later := @ih (enlist known (nodes, chosen) c).1 (enlist known (nodes, chosen) c).2
      (Nat.lt_of_lt_of_le old ext.size_le)
    rw [List.foldl_cons, later, lookup_enlist old, lookup_enlist_eq_none, List.find?_cons]
    simp only [ext.isConfiguredAs old]
    by_cases mine : c.id = id
    · simp [mine]
    · have different : (c.id == id) = false := beq_false_of_ne mine
      simp only [mine, different, false_and, and_false, or_false, ne_eq, not_false_eq_true, and_true]

theorem lookup_of_chosen (candidates : List (Candidate C)) (done : chosen.lookup id = some r) :
    (candidates.foldl (enlist known) (nodes, chosen)).2.lookup id = some r := by
  induction candidates generalizing nodes chosen with
  | nil => exact done
  | cons c candidates ih =>
    have kept : (enlist known (nodes, chosen) c).2.lookup id = some r := by
      rcases enlist_cases known nodes chosen c with ⟨_, same⟩ | ⟨_, s, _, _, same⟩ | ⟨_, _, same⟩
      · rw [same, done]
      · rw [same, lookup_concat, done, Option.some_or]
      · rw [same, lookup_concat, done, Option.some_or]
    exact ih kept

/-- The record that a candidate gets has its weights. -/
theorem fits_enlist (unseen : chosen.lookup c.id = none) :
    ∃ r, (enlist known (nodes, chosen) c).2.lookup c.id = some r ∧
      ((enlist known (nodes, chosen) c).1[r]?).any (·.isConfiguredAs c) := by
  rcases enlist_cases known nodes chosen c with ⟨seen, _⟩ | ⟨_, r, _, fits, same⟩ | ⟨_, _, same⟩
  · exact absurd unseen seen
  · refine ⟨r, by rw [same, lookup_concat, unseen, Option.none_or, if_pos rfl], ?_⟩
    have inside : r < nodes.size := by
      by_contra outside
      simp [Array.getElem?_eq_none (Nat.not_lt.1 outside)] at fits
    rw [(extends_enlist known nodes chosen c).isConfiguredAs inside]
    exact fits
  · refine ⟨nodes.size, by rw [same, lookup_concat, unseen, Option.none_or, if_pos rfl], ?_⟩
    rw [same, Array.getElem?_push_size]
    exact PoolNode.isConfiguredAs_ofCandidate c

/-- What is chosen for an id has the weights of the first candidate of that id. -/
theorem weights_enlist_all (unseen : chosen.lookup id = none)
    (found : (candidates.foldl (enlist known) (nodes, chosen)).2.lookup id = some r) :
    ∃ c, candidates.find? (·.id == id) = some c ∧
      ((candidates.foldl (enlist known) (nodes, chosen)).1[r]?).any (·.isConfiguredAs c) := by
  induction candidates generalizing nodes chosen with
  | nil => cases unseen.symm.trans found
  | cons c candidates ih =>
    rw [List.foldl_cons] at found ⊢
    rw [List.find?_cons]
    by_cases mine : c.id = id
    · subst mine
      obtain ⟨s, chosen_here, fits⟩ := @fits_enlist _ nodes known _ _ unseen
      cases (lookup_of_chosen candidates chosen_here).symm.trans found
      have inside : r < (enlist known (nodes, chosen) c).1.size := by
        by_contra outside
        simp [Array.getElem?_eq_none (Nat.not_lt.1 outside)] at fits
      refine ⟨c, by rw [beq_self_eq_true], ?_⟩
      rw [(extends_enlist_all known _ _ candidates).isConfiguredAs inside]
      exact fits
    · rw [beq_false_of_ne mine]
      exact ih (lookup_enlist_eq_none.2 ⟨unseen, mine⟩) found

section Build

variable {p : Pool C} {cache : Nat} {ready : List (Ready C)}

def cached (p : Pool C) (cache : Nat) : List (String × Nat) := p.caches.getD cache []

theorem extends_build (p : Pool C) (cache : Nat) (ready : List (Ready C)) :
    Extends p.nodes (p.build cache ready).2.nodes (ready.filterMap Candidate.ofReady?) :=
  extends_enlist_all _ _ _ _

theorem cached_build (there : cache < p.caches.size) (ready : List (Ready C)) :
    (p.build cache ready).2.cached cache =
      ((ready.filterMap Candidate.ofReady?).foldl (enlist (p.cached cache)) (p.nodes, [])).2 := by
  simp [cached, build, Array.getD_eq_getD_getElem?, there]

theorem cached_build_of_ne {other : Nat} (different : other ≠ cache) :
    (p.build cache ready).2.cached other = p.cached other := by
  simp [cached, build, Array.getD_eq_getD_getElem?, Array.getElem?_setIfInBounds_ne (Ne.symm different)]

/-- A build uses a record again exactly if its cache knows it under its id, and the entry that counts has its
weights. -/
theorem lookup_build (there : cache < p.caches.size) (old : r < p.nodes.size) :
    ((p.build cache ready).2.cached cache).lookup id = some r ↔
      ∃ c, Candidate.first? ready id = some c ∧ (p.cached cache).lookup id = some r ∧
        (p.nodes[r]?).any (·.isConfiguredAs c) := by
  rw [cached_build there, lookup_enlist_all old]
  simp [Candidate.first?]

theorem weights_build (there : cache < p.caches.size)
    (found : ((p.build cache ready).2.cached cache).lookup id = some r) :
    ∃ c, Candidate.first? ready id = some c ∧ ((p.build cache ready).2.nodes[r]?).any (·.isConfiguredAs c) := by
  rw [cached_build there] at found
  exact weights_enlist_all rfl found

theorem members_build (there : cache < p.caches.size) (ready : List (Ready C)) :
    (p.build cache ready).2.members p.pickers.size = ((p.build cache ready).2.cached cache).map Prod.snd := by
  rw [cached_build there]
  simp [members, build, Array.getD_eq_getD_getElem?, cached]

theorem members_build_of_lt {picker : Nat} (older : picker < p.pickers.size) :
    (p.build cache ready).2.members picker = p.members picker := by
  simp [members, build, Array.getD_eq_getD_getElem?, Array.getElem?_push, Nat.ne_of_lt older]

end Build

end Pool

end Fairway
