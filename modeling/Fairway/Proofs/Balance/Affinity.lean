import Fairway.Proofs.Balance.Identity

namespace Fairway

namespace Candidate

variable {C : Type} {ready : List (Ready C)} {id : String} {c : Candidate C}

/-- The ready entry that counts for a node: the first that has both weights and names it. -/
def source? (ready : List (Ready C)) (id : String) : Option (Ready C) :=
  ready.find? fun e => (ofReady? e).any (·.id == id)

theorem first?_eq (ready : List (Ready C)) (id : String) : first? ready id = (source? ready id).bind ofReady? :=
  List.find?_filterMap

theorem source_of_first (found : first? ready id = some c) :
    ∃ e, source? ready id = some e ∧ e.conn = c.conn ∧ e.address.attributes.group.getD "" = c.group := by
  rw [first?_eq] at found
  obtain ⟨e, counts, reads⟩ := Option.bind_eq_some_iff.1 found
  refine ⟨e, counts, ?_⟩
  unfold ofReady? at reads
  split at reads
  · cases reads
    exact ⟨rfl, rfl⟩
  · cases reads

end Candidate

namespace Pool

variable {C : Type} {p q : Pool C} {past : List (Occurrence C)} {o : Occurrence C} {r : Nat} {id : String}

/-- What a build has made of its records after some of the candidates. -/
structure Enlisted (nodes : Array (PoolNode C)) (done : List (Candidate C))
    (state : Array (PoolNode C) × List (String × Nat)) : Prop where
  names : Names state.1 state.2
  /-- A chosen record has the connection and the group of the first candidate of its id. -/
  chosen : ∀ entry ∈ state.2, ∃ n c, state.1[entry.2]? = some n ∧ done.find? (·.id == entry.1) = some c ∧
    n.conn = c.conn ∧ n.group = c.group
  /-- An id that is not chosen has no candidate so far. -/
  unseen : ∀ id, state.2.lookup id = none → done.find? (·.id == id) = none
  /-- All other records are as they were. -/
  others : ∀ r, r ∉ state.2.map Prod.snd → state.1[r]? = nodes[r]?

namespace Enlisted

variable {nodes : Array (PoolNode C)} {done : List (Candidate C)} {known : List (String × Nat)}
  {state : Array (PoolNode C) × List (String × Nat)}

theorem start (nodes : Array (PoolNode C)) : Enlisted nodes [] (nodes, []) where
  names := .nil nodes
  chosen := nofun
  unseen _ _ := rfl
  others _ _ := rfl

/-- One more candidate gets a record of its own, which gets its connection and group. -/
theorem choose (enlisted : Enlisted nodes done state) {c : Candidate C} {later : Array (PoolNode C)} {n : PoolNode C}
    (new : state.2.lookup c.id = none) (names : Names later (state.2 ++ [(c.id, r)])) (here : later[r]? = some n)
    (conn : n.conn = c.conn) (group : n.group = c.group) (spared : ∀ s, s ≠ r → later[s]? = state.1[s]?) :
    Enlisted nodes (done ++ [c]) (later, state.2 ++ [(c.id, r)]) where
  names := names
  chosen entry member := by
    rcases List.mem_append.1 member with old | last
    · obtain ⟨m, d, found, first, alike⟩ := enlisted.chosen entry old
      have distinct := names.records
      rw [List.map_append, List.nodup_append] at distinct
      have other : entry.2 ≠ r := distinct.2.2 entry.2 (List.mem_map_of_mem old) r List.mem_cons_self
      exact ⟨m, d, (spared entry.2 other).trans found, by rw [List.find?_append, first, Option.some_or], alike⟩
    · obtain rfl := List.mem_singleton.1 last
      refine ⟨n, c, here, ?_, conn, group⟩
      rw [List.find?_append, enlisted.unseen c.id new, Option.none_or, List.find?_singleton, beq_self_eq_true, if_pos rfl]
  unseen id missing := by
    rw [lookup_concat, Option.or_eq_none_iff] at missing
    have different : (c.id == id) = false := beq_false_of_ne fun same => by simp [same] at missing
    rw [List.find?_append, enlisted.unseen id missing.1, Option.none_or, List.find?_singleton, different]
    rfl
  others s unchosen := by
    rw [List.map_append, List.mem_append, not_or] at unchosen
    exact (spared s (by simpa using unchosen.2)).trans (enlisted.others s unchosen.1)

theorem next (enlisted : Enlisted nodes done state) (cached : Names state.1 known) (c : Candidate C) :
    Enlisted nodes (done ++ [c]) (enlist known state c) := by
  obtain ⟨now, chosen⟩ := state
  have names := (names_enlist enlisted.names cached c).2
  rcases enlist_cases known now chosen c with ⟨seen, same⟩ | ⟨new, r, found, fits, same⟩ | ⟨new, _, same⟩
  · rw [same]
    refine ⟨enlisted.names, fun entry member => ?_, fun id missing => ?_, enlisted.others⟩
    · obtain ⟨n, d, there, first, alike⟩ := enlisted.chosen entry member
      exact ⟨n, d, there, by rw [List.find?_append, first, Option.some_or], alike⟩
    · have different : (c.id == id) = false := beq_false_of_ne fun same => seen (same ▸ missing)
      rw [List.find?_append, enlisted.unseen id missing, Option.none_or, List.find?_singleton, different]
      rfl
  · rw [same] at names ⊢
    cases there : now[r]? with
    | none => simp [there] at fits
    | some n =>
      have here : (now.modify r (PoolNode.refresh c))[r]? = some (n.refresh c) := by
        rw [Array.getElem?_modify, if_pos rfl, there, Option.map_some]
      refine enlisted.choose new names here rfl rfl fun s other => ?_
      rw [Array.getElem?_modify, if_neg (Ne.symm other)]
  · rw [same] at names ⊢
    refine enlisted.choose new names Array.getElem?_push_size rfl rfl fun s other => ?_
    rw [Array.getElem?_push, if_neg other]

theorem all (enlisted : Enlisted nodes done state) (cached : Names state.1 known) (candidates : List (Candidate C)) :
    Enlisted nodes (done ++ candidates) (candidates.foldl (enlist known) state) := by
  induction candidates generalizing done state with
  | nil => simpa using enlisted
  | cons c candidates ih =>
    have once := enlisted.next cached c
    have keeps := (names_enlist enlisted.names cached c).1
    simpa using ih once (cached.keep keeps)

end Enlisted

/-- A build gives each record of its picker the connection and the group of the entry that counts for it, and leaves
all other records as they are. -/
theorem Sound.build_records (sound : p.Sound) (cache : Nat) (ready : List (Ready C)) (r : Nat) :
    (r ∈ (p.build cache ready).2.members p.pickers.size → ∃ n c, (p.build cache ready).2.nodes[r]? = some n ∧
      Candidate.first? ready n.id = some c ∧ n.conn = c.conn ∧ n.group = c.group) ∧
    (r ∉ (p.build cache ready).2.members p.pickers.size → (p.build cache ready).2.nodes[r]? = p.nodes[r]?) := by
  have enlisted := (Enlisted.start p.nodes).all (sound.cached cache) (ready.filterMap Candidate.ofReady?)
  have members : (p.build cache ready).2.members p.pickers.size = ((ready.filterMap Candidate.ofReady?).foldl
      (enlist (p.caches.getD cache [])) (p.nodes, [])).2.map Prod.snd := by
    simp [Pool.members, Pool.build, Array.getD_eq_getD_getElem?]
  rw [members]
  constructor
  · intro member
    obtain ⟨entry, listed, rfl⟩ := List.mem_map.1 member
    obtain ⟨n, c, there, first, alike⟩ := enlisted.chosen entry listed
    have named := enlisted.names.ids entry listed
    rw [there, Option.map_some, Option.some.injEq] at named
    exact ⟨n, c, there, named ▸ first, alike⟩
  · exact enlisted.others r

/-- The latest build whose picker has the record made or refreshed it from the entry. -/
def Latest (p : Pool C) (past : List (Occurrence C)) (r : Nat) (id : String) (e : Ready C) : Prop :=
  ∃ earlier cache ready picker since, past = earlier ++ .build cache ready picker :: since ∧
    r ∈ p.members picker ∧ (∀ cache ready picker, .build cache ready picker ∈ since → r ∉ p.members picker) ∧
    Candidate.source? ready id = some e

/-- Each record has the connection and the group of the entry it was last made or refreshed from. -/
def Fresh (p : Pool C) (past : List (Occurrence C)) : Prop :=
  ∀ (r : Nat) n, p.nodes[r]? = some n → ∃ e, Latest p past r n.id e ∧ n.conn = e.conn ∧
    n.group = e.address.attributes.group.getD ""

/-- What happens to a record later on, as long as no build has it in its picker. -/
theorem Latest.concat {e : Ready C} (latest : Latest p past r id e)
    (members : ∀ cache ready picker, .build cache ready picker ∈ past → q.members picker = p.members picker)
    (spared : ∀ cache ready picker, o = .build cache ready picker → r ∉ q.members picker) :
    Latest q (past ++ [o]) r id e := by
  obtain ⟨earlier, cache, ready, picker, since, rfl, member, later, counts⟩ := latest
  refine ⟨earlier, cache, ready, picker, since ++ [o], by simp, ?_, fun cache' ready' picker' new => ?_, counts⟩
  · rw [members cache ready picker (by simp)]
    exact member
  · rcases List.mem_append.1 new with old | last
    · rw [members cache' ready' picker' (by simp [old])]
      exact later cache' ready' picker' old
    · exact spared cache' ready' picker' (List.mem_singleton.1 last).symm

/-- Where only tracks change, all that is known of the entries stays. -/
theorem Fresh.retracked {change : Nat → Bool → Track → Track} (fresh : Fresh p past) (same : Retracked change p q)
    (other : ∀ cache ready picker, o ≠ .build cache ready picker) : Fresh q (past ++ [o]) := by
  intro r n there
  obtain ⟨m, found, rfl⟩ := Option.map_eq_some_iff.1 ((same.nodes r).symm.trans there)
  obtain ⟨e, latest, alike⟩ := fresh r m found
  refine ⟨e, latest.concat (fun _ _ picker _ => same.members picker) fun cache ready picker built => ?_, alike⟩
  exact absurd built (other cache ready picker)

theorem History.fresh (history : History p past) : Fresh p past := by
  induction history with
  | start => simp [Fresh]
  | @newCache p past _ ih =>
    intro r n there
    obtain ⟨e, latest, alike⟩ := ih r n there
    exact ⟨e, latest.concat (fun _ _ _ _ => rfl) nofun, alike⟩
  | @build p past cache ready history there ih =>
    intro r n found
    obtain ⟨mine, others⟩ := history.reached.sound.build_records cache ready r
    by_cases member : r ∈ (p.build cache ready).2.members p.pickers.size
    · obtain ⟨m, c, here, first, conn, group⟩ := mine member
      obtain rfl := Option.some.inj (here.symm.trans found)
      obtain ⟨e, counts, same, again⟩ := Candidate.source_of_first first
      exact ⟨e, ⟨past, cache, ready, _, [], rfl, member, nofun, counts⟩, conn.trans same.symm, group.trans again.symm⟩
    · obtain ⟨e, latest, alike⟩ := ih r n ((others member).symm.trans found)
      refine ⟨e, latest.concat (fun cache' ready' picker built => ?_) ?_, alike⟩
      · obtain ⟨before, since, rfl⟩ := List.append_of_mem built
        exact members_build_of_lt history.lasting.picker
      · rintro _ _ _ ⟨⟩
        exact member
  | pick picker ctx history ih =>
    obtain ⟨_, same⟩ := retracked_serve _ picker (.pick ctx)
    exact ih.retracked same nofun
  | @report p past k ticket completion _ _ ih =>
    exact ih.retracked (Retracked.mapTrack p ticket _) nofun

/-- What picks do for groups. -/
structure Affine (p : Pool C) (past : List (Occurrence C)) : Prop where
  /-- A pick ends well exactly if some node of the picker is in the group now. -/
  serves : ∀ picker ctx, (∃ ticket conn q, p.pick picker ctx = .ok (ticket, conn, q)) ↔
    ∃ n ∈ p.snapshot picker, n.group = ctx.requestedGroup
  /-- It gives the connection of the entry that its record was last made or refreshed from, and that entry names the
  group. -/
  entry : ∀ picker ctx ticket conn q, p.pick picker ctx = .ok (ticket, conn, q) → ticket.node ∈ p.members picker ∧
    ∃ n e, p.nodes[ticket.node]? = some n ∧ Latest p past ticket.node n.id e ∧ conn = e.conn ∧
      e.address.attributes.group.getD "" = ctx.requestedGroup

/-- Groups are kept apart, whatever has been built and picked before. -/
theorem History.affine (history : History p past) : Affine p past where
  serves picker ctx := by
    have some_node : (∃ n ∈ p.snapshot picker, n.group = ctx.requestedGroup) ↔
        ∃ r n, (r, n) ∈ p.holders picker ctx.requestedGroup := by
      simp only [snapshot, List.mem_filterMap, mem_holders]
      constructor
      · rintro ⟨n, ⟨r, member, found⟩, serves⟩
        exact ⟨r, n, member, found, serves⟩
      · rintro ⟨r, n, member, found, serves⟩
        exact ⟨n, ⟨r, member, found⟩, serves⟩
    rw [some_node]
    rcases p.pick_cases picker ctx with ⟨empty, _, fails⟩ | ⟨i, r, n, there, _, picked⟩
    · have none_holds : p.holders picker ctx.requestedGroup = [] := by simpa [nodes_view] using empty
      simp [fails, none_holds]
    · exact iff_of_true ⟨_, _, _, picked⟩ ⟨r, n, List.mem_of_getElem? there⟩
  entry picker ctx ticket conn q picked := by
    rcases p.pick_cases picker ctx with ⟨_, _, fails⟩ | ⟨i, r, n, there, _, selected⟩
    · cases fails.symm.trans picked
    · cases selected.symm.trans picked
      obtain ⟨member, found, serves⟩ := mem_holders.1 (List.mem_of_getElem? there)
      obtain ⟨e, latest, conn, group⟩ := history.fresh r n found
      exact ⟨member, n, e, found, latest, conn, group.symm.trans serves⟩

def oneEntry : List (Ready String) :=
  [⟨"first", "a:1", "", { readWeight := some 2, writeWeight := some 1, group := some "main" }⟩]

/-- The node has moved to another group. The entries before and after the one that counts are of no use. -/
def threeEntries : List (Ready String) :=
  [⟨"partial", "a:1", "", { readWeight := some 2, group := some "lost" }⟩,
    ⟨"second", "a:1", "", { readWeight := some 2, writeWeight := some 1, group := some "spare" }⟩,
    ⟨"third", "a:1", "", { readWeight := some 2, writeWeight := some 1, group := some "main" }⟩]

/-- The picker of the first build serves the new group, over the new connection. -/
theorem affine_moved : ∃ p, History p [.newCache, .build 0 oneEntry 0, .build 0 threeEntries 1] ∧
    Affine p [.newCache, .build 0 oneEntry 0, .build 0 threeEntries 1] ∧ p.members 0 = p.members 1 ∧
    (p.pick 0 { group := some "spare" }).toOption.map (·.2.1) = some "second" ∧
    (p.pick 0 { group := some "main" }).toOption.map (·.2.1) = none := by
  have built : History _ [.newCache, .build 0 oneEntry 0] := .build oneEntry (.newCache .start) (by decide)
  have rebuilt := @History.build _ _ _ 0 threeEntries built (by decide)
  exact ⟨_, rebuilt, rebuilt.affine, rfl, rfl, rfl⟩

end Pool

end Fairway
