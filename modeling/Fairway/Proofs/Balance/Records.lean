import Mathlib.Logic.Function.Iterate
import Fairway.Balance.Pool

namespace Fairway

namespace Pool

variable {C : Type}

/-- The pools that come about by new caches, builds, picks and the ends of calls, in any order. -/
inductive Reached : Pool C → Prop
  | start : Reached {}
  | newCache {p} : Reached p → Reached p.newCache.2
  | build {p} (cache : Nat) (ready : List (Ready C)) : Reached p → Reached (p.build cache ready).2
  | pick {p picker ctx ticket conn q} : Reached p → p.pick picker ctx = .ok (ticket, conn, q) → Reached q
  | report {p} (ticket : Ticket) (completion : Completion) : Reached p → Reached (p.report ticket completion)

/-- Every record keeps its id. -/
def KeepsIds (nodes later : Array (PoolNode C)) : Prop :=
  ∀ (r : Nat) (id : String), (nodes[r]?).map PoolNode.id = some id → (later[r]?).map PoolNode.id = some id

theorem KeepsIds.refl (nodes : Array (PoolNode C)) : KeepsIds nodes nodes := fun _ _ known => known

theorem KeepsIds.trans {nodes later last : Array (PoolNode C)} (first : KeepsIds nodes later)
    (second : KeepsIds later last) : KeepsIds nodes last := fun r id known => second r id (first r id known)

theorem KeepsIds.modify (nodes : Array (PoolNode C)) (r : Nat) {f : PoolNode C → PoolNode C}
    (same : ∀ n, (f n).id = n.id) : KeepsIds nodes (nodes.modify r f) := by
  intro s id known
  rw [Array.getElem?_modify]
  split
  · obtain ⟨n, there, rfl⟩ := Option.map_eq_some_iff.1 known
    simp [there, same]
  · exact known

theorem KeepsIds.push (nodes : Array (PoolNode C)) (n : PoolNode C) : KeepsIds nodes (nodes.push n) := by
  intro r id known
  obtain ⟨old, there, rfl⟩ := Option.map_eq_some_iff.1 known
  have inside := (Array.getElem?_eq_some_iff.1 there).1
  rw [Array.getElem?_push, if_neg (by omega), there]
  rfl

/-- Entries of different ids, each with a record of its id. -/
structure Names (nodes : Array (PoolNode C)) (entries : List (String × Nat)) : Prop where
  distinct : (entries.map Prod.fst).Nodup
  ids : ∀ entry ∈ entries, (nodes[entry.2]?).map PoolNode.id = some entry.1

namespace Names

variable {nodes later : Array (PoolNode C)} {entries : List (String × Nat)}

theorem nil (nodes : Array (PoolNode C)) : Names nodes [] := ⟨.nil, nofun⟩

theorem keep (names : Names nodes entries) (keeps : KeepsIds nodes later) : Names later entries :=
  ⟨names.distinct, fun entry member => keeps _ _ (names.ids entry member)⟩

theorem concat (names : Names nodes entries) {id : String} {r : Nat} (new : entries.lookup id = none)
    (here : (nodes[r]?).map PoolNode.id = some id) : Names nodes (entries ++ [(id, r)]) := by
  constructor
  · rw [List.map_append, List.map_singleton, List.nodup_append]
    refine ⟨names.distinct, by simp, ?_⟩
    rintro _ old _ last rfl
    cases List.mem_singleton.1 last
    obtain ⟨entry, known, same⟩ := List.mem_map.1 old
    exact absurd same.symm (by simpa using List.lookup_eq_none_iff.1 new entry known)
  · intro entry member
    rcases List.mem_append.1 member with old | last
    · exact names.ids entry old
    · cases List.mem_singleton.1 last
      exact here

theorem id_of_lookup (names : Names nodes entries) {id : String} {r : Nat} (found : entries.lookup id = some r) :
    (nodes[r]?).map PoolNode.id = some id := by
  obtain ⟨_, _, split, _⟩ := List.lookup_eq_some_iff.1 found
  exact names.ids (id, r) (split ▸ List.mem_append_right _ List.mem_cons_self)

theorem inside (names : Names nodes entries) {entry : String × Nat} (member : entry ∈ entries) :
    entry.2 < nodes.size := by
  obtain ⟨_, there, _⟩ := Option.map_eq_some_iff.1 (names.ids entry member)
  exact (Array.getElem?_eq_some_iff.1 there).1

/-- Entries of different ids have different records. -/
theorem records (names : Names nodes entries) : (entries.map Prod.snd).Nodup := by
  rw [List.Nodup, List.pairwise_map]
  refine (List.pairwise_map.1 names.distinct).imp_of_mem fun {entry other} first second different same => ?_
  have ids := names.ids entry first
  rw [same, names.ids other second] at ids
  exact different (Option.some.inj ids.symm)

end Names

/-- One more candidate: the records known so far keep their ids, and it is chosen under its own. -/
theorem names_enlist {nodes : Array (PoolNode C)} {chosen known : List (String × Nat)}
    (names : Names nodes chosen) (cached : Names nodes known) (c : Candidate C) :
    KeepsIds nodes (enlist known (nodes, chosen) c).1 ∧
      Names (enlist known (nodes, chosen) c).1 (enlist known (nodes, chosen) c).2 := by
  simp only [enlist]
  split
  case isTrue => exact ⟨.refl nodes, names⟩
  case isFalse unseen =>
    have new : chosen.lookup c.id = none := Option.not_isSome_iff_eq_none.1 unseen
    split
    · rename_i r reusable
      obtain ⟨found, _⟩ := Option.filter_eq_some_iff.1 reusable
      have keeps := KeepsIds.modify nodes r fun n => (rfl : (PoolNode.refresh c n).id = n.id)
      exact ⟨keeps, (names.keep keeps).concat new (keeps r c.id (cached.id_of_lookup found))⟩
    · have keeps := KeepsIds.push nodes (PoolNode.ofCandidate c)
      exact ⟨keeps, (names.keep keeps).concat new (by simp [PoolNode.ofCandidate])⟩

theorem names_enlist_all {nodes : Array (PoolNode C)} {chosen known : List (String × Nat)}
    (names : Names nodes chosen) (cached : Names nodes known) (candidates : List (Candidate C)) :
    KeepsIds nodes (candidates.foldl (enlist known) (nodes, chosen)).1 ∧
      Names (candidates.foldl (enlist known) (nodes, chosen)).1
        (candidates.foldl (enlist known) (nodes, chosen)).2 := by
  induction candidates generalizing nodes chosen with
  | nil => exact ⟨.refl nodes, names⟩
  | cons c candidates ih =>
    obtain ⟨keeps, next⟩ := names_enlist names cached c
    obtain ⟨later, all⟩ := ih next (cached.keep keeps)
    exact ⟨keeps.trans later, all⟩

/-- Caches name records, and no picker has a record twice. -/
structure Sound (p : Pool C) : Prop where
  caches : ∀ known ∈ p.caches, Names p.nodes known
  pickers : ∀ members ∈ p.pickers, members.Nodup

namespace Sound

variable {p q : Pool C}

theorem cached (sound : p.Sound) (cache : Nat) : Names p.nodes (p.caches.getD cache []) := by
  rw [Array.getD_eq_getD_getElem?]
  cases found : p.caches[cache]? with
  | none => exact .nil p.nodes
  | some known => exact sound.caches known (Array.mem_of_getElem? found)

theorem members_nodup (sound : p.Sound) (picker : Nat) : (p.members picker).Nodup := by
  rw [members, Array.getD_eq_getD_getElem?]
  cases found : p.pickers[picker]? with
  | none => exact .nil
  | some members => exact sound.pickers members (Array.mem_of_getElem? found)

theorem newCache (sound : p.Sound) : p.newCache.2.Sound := by
  refine ⟨fun known member => ?_, sound.pickers⟩
  rcases Array.mem_push.1 member with old | rfl
  · exact sound.caches known old
  · exact .nil p.nodes

theorem build (sound : p.Sound) (cache : Nat) (ready : List (Ready C)) : (p.build cache ready).2.Sound := by
  obtain ⟨keeps, names⟩ := names_enlist_all (.nil p.nodes) (sound.cached cache)
    (ready.filterMap Candidate.ofReady?)
  constructor
  · intro known member
    rcases Array.mem_or_eq_of_mem_setIfInBounds member with old | rfl
    · exact (sound.caches known old).keep keeps
    · exact names
  · intro members member
    rcases Array.mem_push.1 member with old | rfl
    · exact sound.pickers members old
    · exact names.records

end Sound

/-- The same pool, but for what `change` does to the tracks of a record. -/
structure Retracked (change : Nat → Bool → Track → Track) (p q : Pool C) : Prop where
  caches : q.caches = p.caches
  pickers : q.pickers = p.pickers
  nodes : ∀ r : Nat, q.nodes[r]? = (p.nodes[r]?).map fun n =>
    { n with read := change r false n.read, write := change r true n.write }

namespace Retracked

variable {change after : Nat → Bool → Track → Track} {p q s : Pool C}

theorem refl (p : Pool C) : Retracked (fun _ _ => id) p p := ⟨rfl, rfl, fun r => by simp⟩

theorem trans (first : Retracked change p q) (second : Retracked after q s) :
    Retracked (fun r write => after r write ∘ change r write) p s where
  caches := second.caches.trans first.caches
  pickers := second.pickers.trans first.pickers
  nodes r := by
    rw [second.nodes, first.nodes, Option.map_map]
    rfl

theorem mapTrack (p : Pool C) (ticket : Ticket) (f : Track → Track) :
    Retracked (fun r write => if ticket = ⟨r, write⟩ then f else id) p (p.mapTrack ticket f) where
  caches := rfl
  pickers := rfl
  nodes r := by
    obtain ⟨node, write⟩ := ticket
    simp only [Pool.mapTrack, Array.getElem?_modify, Ticket.mk.injEq]
    cases p.nodes[r]? with
    | none => simp
    | some n => by_cases here : node = r <;> cases write <;> simp [here, PoolNode.mapTrack]

theorem mapTracks (p : Pool C) (tickets : List Ticket) (f : Track → Track) :
    Retracked (fun r write => f^[tickets.count ⟨r, write⟩]) p (tickets.foldl (fun p t => p.mapTrack t f) p) := by
  induction tickets generalizing p with
  | nil => exact refl p
  | cons t tickets ih =>
    have both := (mapTrack p t f).trans (ih (p.mapTrack t f))
    refine cast (congrArg (Retracked · p _) (funext fun r => funext fun write => ?_)) both
    rw [List.count_cons]
    by_cases here : t = ⟨r, write⟩ <;> simp [here]

theorem sound (change : Retracked change p q) (sound : p.Sound) : q.Sound where
  caches known member := (sound.caches known (change.caches ▸ member)).keep fun r id there => by
    obtain ⟨n, found, rfl⟩ := Option.map_eq_some_iff.1 there
    rw [change.nodes, found]
    rfl
  pickers members member := sound.pickers members (change.pickers ▸ member)

end Retracked

/-- A pick changes nothing but tracks. -/
theorem retracked_pick {p q : Pool C} {picker : Nat} {ctx : CallContext} {ticket : Ticket} {conn : C}
    (picked : p.pick picker ctx = .ok (ticket, conn, q)) : ∃ change, Retracked change p q := by
  unfold pick at picked
  split at picked
  case isTrue => cases picked
  case isFalse =>
    simp only at picked
    split at picked
    · cases picked
    · split at picked
      · cases picked
      · cases picked
        exact ⟨_, (Retracked.mapTracks p _ _).trans (Retracked.mapTrack _ _ _)⟩

theorem Reached.sound {p : Pool C} (reached : p.Reached) : p.Sound := by
  induction reached with
  | start => exact ⟨nofun, nofun⟩
  | newCache _ ih => exact ih.newCache
  | build cache ready _ ih => exact ih.build cache ready
  | pick _ picked ih =>
    obtain ⟨_, change⟩ := retracked_pick picked
    exact change.sound ih
  | report ticket completion _ ih => exact (Retracked.mapTrack _ ticket _).sound ih

end Pool

end Fairway
