import Mathlib.Data.List.Induction
import Fairway.Proofs.Balance.Feedback

namespace Fairway

namespace Pool

variable {C : Type} {p q : Pool C} {past later since : List (Occurrence C)} {o : Occurrence C}
  {cache first r : Nat} {ready : List (Ready C)} {id : String}

theorem Names.lookup {nodes : Array (PoolNode C)} {entries : List (String × Nat)} (names : Names nodes entries)
    (member : (id, r) ∈ entries) : entries.lookup id = some r := by
  obtain ⟨before, after, rfl⟩ := List.append_of_mem member
  have distinct := names.distinct
  rw [List.map_append, List.nodup_append] at distinct
  refine List.lookup_eq_some_iff.2 ⟨before, after, rfl, fun entry early => ?_⟩
  have different := distinct.2.2 entry.1 (List.mem_map_of_mem early) id List.mem_cons_self
  simpa using different.symm

/-- Records stay, with their ids and their configured weights. -/
def Keeps (nodes later : Array (PoolNode C)) : Prop :=
  ∀ (r : Nat) n, nodes[r]? = some n → ∃ m, later[r]? = some m ∧ m.id = n.id ∧
    ∀ write, (m.track write).configured = (n.track write).configured

namespace Keeps

variable {nodes later last : Array (PoolNode C)}

theorem refl (nodes : Array (PoolNode C)) : Keeps nodes nodes := fun _ n there => ⟨n, there, rfl, fun _ => rfl⟩

theorem trans (first : Keeps nodes later) (second : Keeps later last) : Keeps nodes last := by
  intro r n there
  obtain ⟨m, found, id, configured⟩ := first r n there
  obtain ⟨k, stays, again, still⟩ := second r m found
  exact ⟨k, stays, again.trans id, fun write => (still write).trans (configured write)⟩

theorem id_iff (keeps : Keeps nodes later) {n : PoolNode C} (there : nodes[r]? = some n) :
    (later[r]?).map PoolNode.id = some id ↔ n.id = id := by
  obtain ⟨m, found, same, _⟩ := keeps r n there
  rw [found, Option.map_some, Option.some.injEq, same]

end Keeps

theorem keeps_build (p : Pool C) (cache : Nat) (ready : List (Ready C)) :
    Keeps p.nodes (p.build cache ready).2.nodes := by
  intro r n there
  obtain ⟨m, found, alike⟩ := (p.extends_build cache ready).old r n there
  exact ⟨m, found, alike.id, fun write => by rw [alike.track]⟩

theorem Retracked.keeps {change : Nat → Bool → Track → Track} (same : Retracked change p q)
    (configured : ∀ r write t, (change r write t).configured = t.configured) : Keeps p.nodes q.nodes := by
  intro r n there
  have after := same.nodes r
  rw [there, Option.map_some] at after
  refine ⟨_, after, rfl, fun write => ?_⟩
  cases write
  · exact configured r false n.read
  · exact configured r true n.write

/-- All that can happen last. -/
theorem History.latest (history : History p (past ++ [o])) : ∃ q, History q past ∧
    ((o = .newCache ∧ p = q.newCache.2) ∨
    (∃ cache ready, cache < q.caches.size ∧ o = .build cache ready q.pickers.size ∧ p = (q.build cache ready).2) ∨
    (∃ picker ctx, o = .pick picker ctx (q.selection picker ctx) ∧ p = q.serve picker (.pick ctx)) ∨
    (∃ k completion ticket, past[k]?.bind Occurrence.selected = some ticket ∧ o = .report k completion ∧
      p = q.report ticket completion)) := by
  generalize whole : past ++ [o] = all at history
  cases history with
  | start => simp at whole
  | newCache before =>
    obtain ⟨rfl, rfl⟩ := List.append_singleton_inj.1 whole
    exact ⟨_, before, .inl ⟨rfl, rfl⟩⟩
  | build ready before there =>
    obtain ⟨rfl, rfl⟩ := List.append_singleton_inj.1 whole
    exact ⟨_, before, .inr (.inl ⟨_, ready, there, rfl, rfl⟩)⟩
  | pick picker ctx before =>
    obtain ⟨rfl, rfl⟩ := List.append_singleton_inj.1 whole
    exact ⟨_, before, .inr (.inr (.inl ⟨picker, ctx, rfl, rfl⟩))⟩
  | @report _ _ k ticket completion before made =>
    obtain ⟨rfl, rfl⟩ := List.append_singleton_inj.1 whole
    exact ⟨_, before, .inr (.inr (.inr ⟨k, completion, ticket, made, rfl, rfl⟩))⟩

/-- Picks and reports touch neither caches nor pickers. -/
theorem History.last (history : History p (past ++ [o])) : ∃ q, History q past ∧ Keeps q.nodes p.nodes ∧
    ((o = .newCache ∧ p = q.newCache.2) ∨
    (∃ cache ready, cache < q.caches.size ∧ o = .build cache ready q.pickers.size ∧ p = (q.build cache ready).2) ∨
    ((∀ cache ready picker, o ≠ .build cache ready picker) ∧ p.caches = q.caches ∧ p.pickers = q.pickers)) := by
  obtain ⟨q, before, cases⟩ := history.latest
  refine ⟨q, before, ?_⟩
  rcases cases with ⟨rfl, rfl⟩ | ⟨cache, ready, there, rfl, rfl⟩ | ⟨picker, ctx, rfl, rfl⟩ |
    ⟨k, completion, ticket, _, rfl, rfl⟩
  · exact ⟨.refl _, .inl ⟨rfl, rfl⟩⟩
  · exact ⟨keeps_build q cache ready, .inr (.inl ⟨cache, ready, there, rfl, rfl⟩)⟩
  · obtain ⟨change, same, quiet⟩ := before.reached.sound.quiet_pick picker ctx
    exact ⟨same.keeps fun r write t => (quiet r write t).1, .inr (.inr ⟨nofun, same.caches, same.pickers⟩)⟩
  · have same := Retracked.mapTrack q ticket (Track.record completion.outcome)
    refine ⟨same.keeps fun r write t => ?_, .inr (.inr ⟨nofun, same.caches, same.pickers⟩)⟩
    split <;> rfl

theorem History.eq_start (history : History p []) : p = {} := by
  generalize nothing : [] = past at history
  cases history with
  | start => rfl
  | newCache | build | pick | report => simp at nothing

/-- What has happened tells what the pool is. -/
theorem History.unique (history : History p past) (other : History q past) : p = q := by
  induction past using List.reverseRecOn generalizing p q with
  | nil => rw [history.eq_start, other.eq_start]
  | append_singleton past o ih =>
    obtain ⟨s, before, cases⟩ := history.latest
    obtain ⟨t, again, others⟩ := other.latest
    obtain rfl := ih before again
    rcases cases with ⟨rfl, rfl⟩ | ⟨cache, ready, _, rfl, rfl⟩ | ⟨picker, ctx, rfl, rfl⟩ |
      ⟨k, completion, ticket, made, rfl, rfl⟩ <;>
    rcases others with ⟨same, rfl⟩ | ⟨_, _, _, same, rfl⟩ | ⟨_, _, same, rfl⟩ | ⟨_, _, _, made', same, rfl⟩ <;>
    cases same
    · rfl
    · rfl
    · rfl
    · cases made.symm.trans made'
      rfl

/-- What there is at some time stays. -/
theorem History.earlier (history : History p (past ++ later)) : ∃ q, History q past ∧ Keeps q.nodes p.nodes ∧
    q.pickers.size ≤ p.pickers.size ∧ ∀ picker < q.pickers.size, p.members picker = q.members picker := by
  induction later using List.reverseRecOn generalizing p with
  | nil => exact ⟨p, by simpa using history, .refl _, Nat.le_refl _, fun _ _ => rfl⟩
  | append_singleton later o ih =>
    rw [← List.append_assoc] at history
    obtain ⟨s, before, keeps, cases⟩ := history.last
    obtain ⟨q, begun, kept, fewer, same⟩ := ih before
    have step : s.pickers.size ≤ p.pickers.size ∧ ∀ picker < s.pickers.size, p.members picker = s.members picker := by
      rcases cases with ⟨-, rfl⟩ | ⟨cache, ready, -, -, rfl⟩ | ⟨-, -, pickers⟩
      · exact ⟨Nat.le_refl _, fun _ _ => rfl⟩
      · refine ⟨?_, fun picker older => members_build_of_lt older⟩
        simp [Pool.build]
      · exact ⟨by rw [pickers], fun _ _ => by rw [members, pickers, members]⟩
    refine ⟨q, begun, kept.trans keeps, Nat.le_trans fewer step.1, fun picker older => ?_⟩
    rw [step.2 picker (Nat.lt_of_lt_of_le older fewer), same picker older]

/-- Every build on the cache had an entry that counts for the id, with the weights of `c`. -/
def Unchanged (cache : Nat) (id : String) (c : Candidate C) (since : List (Occurrence C)) : Prop :=
  ∀ ready picker, .build cache ready picker ∈ since → ∃ d, Candidate.first? ready id = some d ∧ d.SameWeights c

theorem unchanged_concat {c : Candidate C} : Unchanged cache id c (since ++ [o]) ↔ Unchanged cache id c since ∧
    ∀ ready picker, o = .build cache ready picker → ∃ d, Candidate.first? ready id = some d ∧ d.SameWeights c := by
  constructor
  · intro all
    refine ⟨fun ready picker old => all ready picker (List.mem_append_left _ old), ?_⟩
    rintro ready picker rfl
    exact all ready picker (List.mem_append_right _ List.mem_cons_self)
  · rintro ⟨old, new⟩ ready picker member
    rcases List.mem_append.1 member with early | last
    · exact old ready picker early
    · exact new ready picker (List.mem_singleton.1 last).symm

/-- The record of a node of a picker has the weights of the entry that counted for it, and the cache of the picker
knows it for as long as these have not changed. -/
structure Holds (p : Pool C) (cache : Nat) (ready : List (Ready C)) (since : List (Occurrence C)) (r : Nat)
    (n : PoolNode C) (c : Candidate C) : Prop where
  node : p.nodes[r]? = some n
  entry : Candidate.first? ready n.id = some c
  configured : n.isConfiguredAs c
  cached : (p.cached cache).lookup n.id = some r ↔ Unchanged cache n.id c since

/-- What is known of the picker of a build after what has happened since. -/
structure Lasting (p : Pool C) (cache : Nat) (ready : List (Ready C)) (first : Nat) (since : List (Occurrence C)) :
    Prop where
  there : cache < p.caches.size
  picker : first < p.pickers.size
  holds : ∀ r ∈ p.members first, ∃ n c, Holds p cache ready since r n c

theorem mem_members_build (there : cache < p.caches.size) (sound : p.Sound)
    (member : r ∈ (p.build cache ready).2.members p.pickers.size) :
    ∃ n, (p.build cache ready).2.nodes[r]? = some n ∧
      ((p.build cache ready).2.cached cache).lookup n.id = some r := by
  rw [members_build there] at member
  obtain ⟨⟨id, _⟩, known, rfl⟩ := List.mem_map.1 member
  have names := (sound.build cache ready).cached cache
  obtain ⟨n, found, rfl⟩ := Option.map_eq_some_iff.1 (names.ids _ known)
  exact ⟨n, found, names.lookup known⟩

theorem Sound.lasting_build (sound : p.Sound) (there : cache < p.caches.size) :
    Lasting (p.build cache ready).2 cache ready p.pickers.size [] where
  there := by simpa [Pool.build] using there
  picker := by simp [Pool.build]
  holds r member := by
    obtain ⟨n, found, known⟩ := mem_members_build there sound member
    obtain ⟨c, entry, fits⟩ := weights_build there known
    rw [found, Option.any_some] at fits
    have fresh : Unchanged cache n.id c [] := by simp [Unchanged]
    exact ⟨n, c, found, entry, fits, iff_of_true known fresh⟩

theorem sameWeights_iff {n : PoolNode C} {c d : Candidate C} (configured : n.isConfiguredAs c) :
    n.isConfiguredAs d ↔ d.SameWeights c := by
  rw [PoolNode.isConfiguredAs_iff] at configured ⊢
  simp only [Candidate.SameWeights, configured, eq_comm]

/-- A further build on the cache. -/
theorem cached_again {n : PoolNode C} {c : Candidate C} {again : List (Ready C)} {picker : Nat}
    (there : cache < p.caches.size) (holds : Holds p cache ready since r n c) :
    ((p.build cache again).2.cached cache).lookup n.id = some r ↔
      Unchanged cache n.id c (since ++ [.build cache again picker]) := by
  have old := (Array.getElem?_eq_some_iff.1 holds.node).1
  rw [lookup_build there old, holds.cached, holds.node, unchanged_concat]
  simp only [Option.any_some, sameWeights_iff holds.configured]
  constructor
  · rintro ⟨d, entry, unchanged, same⟩
    refine ⟨unchanged, ?_⟩
    rintro _ _ ⟨⟩
    exact ⟨d, entry, same⟩
  · rintro ⟨unchanged, last⟩
    obtain ⟨d, entry, same⟩ := last again picker rfl
    exact ⟨d, entry, unchanged, same⟩

theorem Holds.keep {n : PoolNode C} {c : Candidate C} (holds : Holds p cache ready since r n c)
    (keeps : Keeps p.nodes q.nodes)
    (cached : (q.cached cache).lookup n.id = some r ↔ Unchanged cache n.id c (since ++ [o])) :
    ∃ m c, Holds q cache ready (since ++ [o]) r m c := by
  obtain ⟨m, found, id, configured⟩ := keeps r n holds.node
  refine ⟨m, c, found, by rw [id, holds.entry], ?_, by rw [id, cached]⟩
  have before := PoolNode.isConfiguredAs_iff.1 holds.configured
  exact PoolNode.isConfiguredAs_iff.2 fun write => (configured write).trans (before write)

theorem History.lasting (history : History p (past ++ .build cache ready first :: since)) :
    Lasting p cache ready first since := by
  induction since using List.reverseRecOn generalizing p with
  | nil =>
    obtain ⟨q, before, -, cases⟩ := history.last
    rcases cases with ⟨same, -⟩ | ⟨_, _, there, same, rfl⟩ | ⟨other, -⟩
    · cases same
    · cases same
      exact before.reached.sound.lasting_build there
    · exact absurd rfl (other cache ready first)
  | append_singleton since o ih =>
    rw [← List.cons_append, ← List.append_assoc] at history
    obtain ⟨q, before, keeps, cases⟩ := history.last
    have lasting := ih before
    -- Only a build on the same cache can change what the cache knows.
    have silent (different : ∀ again picker, o ≠ .build cache again picker) (n : PoolNode C) (c : Candidate C) :
        Unchanged cache n.id c (since ++ [o]) ↔ Unchanged cache n.id c since := by
      rw [unchanged_concat]
      exact and_iff_left fun again picker same => absurd same (different again picker)
    rcases cases with ⟨rfl, rfl⟩ | ⟨k, again, there, rfl, rfl⟩ | ⟨other, caches, pickers⟩
    · refine ⟨?_, lasting.picker, fun r member => ?_⟩
      · simpa [Pool.newCache] using Nat.lt_succ_of_lt lasting.there
      · obtain ⟨n, c, holds⟩ := lasting.holds r member
        refine holds.keep keeps ?_
        rw [silent nofun, ← holds.cached]
        have inside := lasting.there
        simp [Pool.newCache, Pool.cached, Array.getD_eq_getD_getElem?, Array.getElem?_push, Nat.ne_of_lt inside]
    · refine ⟨?_, ?_, fun r member => ?_⟩
      · simpa [Pool.build] using lasting.there
      · simpa [Pool.build] using Nat.lt_succ_of_lt lasting.picker
      · rw [members_build_of_lt lasting.picker] at member
        obtain ⟨n, c, holds⟩ := lasting.holds r member
        refine holds.keep keeps ?_
        by_cases mine : k = cache
        · subst mine
          exact cached_again there holds
        · rw [cached_build_of_ne (Ne.symm mine), holds.cached, silent]
          rintro _ _ ⟨⟩
          exact mine rfl
    · refine ⟨caches ▸ lasting.there, pickers ▸ lasting.picker, fun r member => ?_⟩
      rw [members, pickers] at member
      obtain ⟨n, c, holds⟩ := lasting.holds r member
      refine holds.keep keeps ?_
      rw [silent fun again picker => other cache again picker, ← holds.cached, Pool.cached, caches, Pool.cached]

/-- Nodes of the same id in two pickers of a cache are the same record exactly if no build on the cache after the
first one, up to the second one, was without an entry for the id or had other weights. -/
theorem History.identity {between : List (Occurrence C)} {again : List (Ready C)} {second s : Nat}
    (history : History p (past ++ .build cache ready first :: (between ++ .build cache again second :: later)))
    (here : r ∈ p.members first) (there : s ∈ p.members second)
    (named : (p.nodes[r]?).map PoolNode.id = some id) (alike : (p.nodes[s]?).map PoolNode.id = some id) :
    ∃ c, Candidate.first? ready id = some c ∧
      (r = s ↔ Unchanged cache id c (between ++ [.build cache again second])) := by
  -- At the time of the second build its picker has what the cache knows.
  have sofar : past ++ .build cache ready first :: (between ++ .build cache again second :: later) =
      (past ++ .build cache ready first :: between ++ [.build cache again second]) ++ later := by simp
  rw [sofar] at history
  obtain ⟨q, built, keeps, fewer, same⟩ := history.earlier
  obtain ⟨b, before, -, cases⟩ := built.last
  rcases cases with ⟨other, -⟩ | ⟨_, _, cached, made, rfl⟩ | ⟨other, -⟩
  · cases other
  · cases made
    rw [List.append_assoc, List.cons_append] at built
    have lasting := built.lasting
    rw [same first lasting.picker] at here
    rw [same _ (by simp [Pool.build])] at there
    obtain ⟨n, c, holds⟩ := lasting.holds r here
    obtain ⟨m, found, known⟩ := mem_members_build cached before.reached.sound there
    obtain rfl := (keeps.id_iff holds.node).1 named
    rw [(keeps.id_iff found).1 alike] at known
    refine ⟨c, holds.entry, ?_⟩
    rw [← holds.cached, known, Option.some.injEq, eq_comm]
  · exact absurd rfl (other cache again second)

/-- What the history of a pool says of its records. -/
structure Accounted (p : Pool C) (past : List (Occurrence C)) : Prop where
  /-- A record has heard of every call whose pick selected it, on the track that was selected, and of nothing else. -/
  feedback : ∀ (r : Nat) n, p.nodes[r]? = some n → ∃ cache ready picker c, .build cache ready picker ∈ past ∧
    c ∈ ready.filterMap Candidate.ofReady? ∧ Heard past r n c
  /-- The nodes of a picker have the weights of the entries that counted when it was built. -/
  weights : ∀ cache ready picker, .build cache ready picker ∈ past → ∀ r ∈ p.members picker,
    ∃ n c, p.nodes[r]? = some n ∧ Candidate.first? ready n.id = some c ∧ n.isConfiguredAs c
  /-- Two pickers of a cache share the record of an id exactly if its entries have kept their weights. -/
  shared : ∀ earlier cache ready first between again second later,
    past = earlier ++ .build cache ready first :: (between ++ .build cache again second :: later) →
    ∀ r ∈ p.members first, ∀ s ∈ p.members second, ∀ id,
    (p.nodes[r]?).map PoolNode.id = some id → (p.nodes[s]?).map PoolNode.id = some id →
    ∃ c, Candidate.first? ready id = some c ∧
      (r = s ↔ Unchanged cache id c (between ++ [.build cache again second]))

theorem History.accounted (history : History p past) : Accounted p past where
  feedback := history.noted.heard
  weights cache ready picker built r member := by
    obtain ⟨before, since, rfl⟩ := List.append_of_mem built
    obtain ⟨n, c, holds⟩ := history.lasting.holds r member
    exact ⟨n, c, holds.node, holds.entry, holds.configured⟩
  shared := by
    rintro _ _ _ _ _ _ _ _ rfl r here s there id named alike
    exact history.identity here there named alike

def reweighed (weight : UInt32) : List (Ready String) :=
  [⟨"first", "a:1", "", { readWeight := some weight, writeWeight := some 1 }⟩]

/-- The weight of a node changes and changes back before the end of a call from the time before is reported. -/
def changedBack : List (Occurrence String) :=
  [.newCache, .build 0 (reweighed 2) 0, .pick 0 {} (some ⟨0, false⟩), .build 0 (reweighed 3) 1,
    .build 0 (reweighed 2) 2, .report 2 (.status 14)]

/-- The report reaches the record of the first picker, and the last one has another. -/
theorem accounted_changedBack : ∃ p, History p changedBack ∧ Accounted p changedBack ∧
    p.members 0 = [0] ∧ p.members 2 = [2] ∧ p.nodes.toList.map (·.read.efficient) = [1, 3, 2] := by
  have built : History _ [.newCache, .build 0 (reweighed 2) 0] := .build (reweighed 2) (.newCache .start) (by decide)
  have called := History.pick 0 {} built
  have changed := @History.build _ _ _ 0 (reweighed 3) called (by decide)
  have rebuilt := @History.build _ _ _ 0 (reweighed 2) changed (by decide)
  have history : History _ changedBack := @History.report _ _ _ 2 ⟨0, false⟩ (.status 14) rebuilt rfl
  exact ⟨_, history, history.accounted, rfl, rfl, rfl⟩

end Pool

end Fairway
