import Fairway.Proofs.Balance.Enlistment

namespace Fairway

namespace Occurrence

variable {C : Type}

/-- The ready list of a build on a cache. -/
def readyFor (cache : Nat) : Occurrence C → Option (List (Ready C))
  | build k ready _ => if k = cache then some ready else none
  | _ => none

end Occurrence

namespace Pool

variable {C : Type} {p q : Pool C} {past : List (Occurrence C)} {o : Occurrence C} {cache k : Nat}
  {ready : List (Ready C)}

/-- The ready lists of the builds on a cache, in order. -/
def readyLists (past : List (Occurrence C)) (cache : Nat) : List (List (Ready C)) :=
  past.filterMap (Occurrence.readyFor cache)

theorem readyLists_concat (past : List (Occurrence C)) (o : Occurrence C) (cache : Nat) :
    readyLists (past ++ [o]) cache = readyLists past cache ++ (o.readyFor cache).toList := by
  rw [readyLists, List.filterMap_append, List.filterMap_cons, readyLists]
  cases o.readyFor cache <;> rfl

theorem readyLists_concat_of_none (other : o.readyFor cache = none) :
    readyLists (past ++ [o]) cache = readyLists past cache := by
  rw [readyLists_concat, other, Option.toList_none, List.append_nil]

theorem cached_newCache (p : Pool C) (cache : Nat) : p.newCache.2.cached cache = p.cached cache := by
  simp only [cached, newCache, Array.getD_eq_getD_getElem?, Array.getElem?_push]
  split
  case isTrue last => simp [last]
  case isFalse => rfl

/-- The cache knows the entries that count in a ready list, and their records show what these say. -/
def Settled (p : Pool C) (cache : Nat) (ready : List (Ready C)) : Prop :=
  List.Forall₂ (fun c entry => entry.1 = c.id ∧ ∃ n, p.nodes[entry.2]? = some n ∧ Shows n c)
    (Candidate.counting ready) (p.cached cache)

theorem Sound.settled_build (sound : p.Sound) (there : cache < p.caches.size) (ready : List (Ready C)) :
    Settled (p.build cache ready).2 cache ready :=
  (sound.drafted_build there ready).placed.imp fun _ _ placed => ⟨placed.id, placed.shows (sound.cached cache)⟩

theorem Settled.keep (settled : Settled p cache ready) (same : q.cached cache = p.cached cache)
    (records : ∀ entry ∈ p.cached cache, ∀ n c, p.nodes[entry.2]? = some n → Shows n c →
      ∃ m, q.nodes[entry.2]? = some m ∧ Shows m c) : Settled q cache ready := by
  rw [Settled, same]
  refine List.forall₂_iff_zip.2 ⟨settled.length_eq, fun {c entry} pair => ?_⟩
  obtain ⟨named, n, there, shows⟩ := List.forall₂_zip settled pair
  exact ⟨named, records entry (List.of_mem_zip pair).2 n c there shows⟩

theorem Settled.retracked {change : Nat → Bool → Track → Track} (settled : Settled p cache ready)
    (same : Retracked change p q) (configured : ∀ r write t, (change r write t).configured = t.configured) :
    Settled q cache ready := by
  refine settled.keep (by rw [cached, same.caches, cached]) fun entry _ n c there shows => ?_
  have after := same.nodes entry.2
  rw [there, Option.map_some] at after
  refine ⟨_, after, shows.id, shows.conn, shows.group, fun write => ?_⟩
  cases write
  · exact (configured _ _ _).trans (shows.fits false)
  · exact (configured _ _ _).trans (shows.fits true)

/-- No two caches know the same record. -/
def Apart (p : Pool C) : Prop :=
  ∀ k l, k ≠ l → ∀ entry ∈ p.cached k, ∀ other ∈ p.cached l, entry.2 ≠ other.2

/-- A build leaves what other caches know alone. -/
theorem Apart.foreign (apart : p.Apart) (sound : p.Sound) (there : cache < p.caches.size) (different : k ≠ cache)
    {entry other : String × Nat} (known : entry ∈ p.cached k) (member : other ∈ (p.build cache ready).2.cached cache) :
    entry.2 ≠ other.2 := by
  rcases (sound.drafted_build there ready).origin member with old | new
  · exact apart k cache different entry known other old
  · exact Nat.ne_of_lt (Nat.lt_of_lt_of_le ((sound.cached k).inside known) new)

theorem Apart.spared (apart : p.Apart) (sound : p.Sound) (there : cache < p.caches.size) (different : k ≠ cache)
    {entry : String × Nat} (known : entry ∈ p.cached k) :
    (p.build cache ready).2.nodes[entry.2]? = p.nodes[entry.2]? := by
  have rebuilt := sound.rebuilt there ready
  refine rebuilt.spared entry.2 fun taken => ?_
  rw [rebuilt.members] at taken
  obtain ⟨other, member, alike⟩ := List.mem_map.1 taken
  exact apart.foreign sound there different known member alike.symm

theorem Apart.build (apart : p.Apart) (sound : p.Sound) (there : cache < p.caches.size) (ready : List (Ready C)) :
    (p.build cache ready).2.Apart := by
  intro k l different entry known other member
  by_cases first : k = cache
  · subst first
    rw [cached_build_of_ne different.symm] at member
    exact (apart.foreign sound there different.symm member known).symm
  · rw [cached_build_of_ne first] at known
    by_cases second : l = cache
    · subst second
      exact apart.foreign sound there first known member
    · rw [cached_build_of_ne second] at member
      exact apart k l different entry known other member

theorem Retracked.apart {change : Nat → Bool → Track → Track} (same : Retracked change p q) (apart : p.Apart) :
    q.Apart := by
  unfold Apart cached
  rw [same.caches]
  exact apart

theorem History.apart (history : History p past) : p.Apart := by
  induction history with
  | start => exact fun k l _ entry known => nomatch known
  | newCache _ ih =>
    intro k l different entry known other member
    rw [cached_newCache] at known member
    exact ih k l different entry known other member
  | build ready history there ih => exact ih.build history.reached.sound there ready
  | pick picker ctx _ ih =>
    obtain ⟨_, same⟩ := retracked_serve _ picker (.pick ctx)
    exact same.apart ih
  | report completion _ _ ih => exact (Retracked.mapTrack _ _ _).apart ih

/-- What the latest build on a cache has settled stays until the next. -/
theorem History.settled (history : History p past) (latest : (readyLists past cache).getLast? = some ready) :
    cache < p.caches.size ∧ Settled p cache ready := by
  induction history with
  | start => cases latest
  | @newCache p past _ ih =>
    rw [readyLists_concat_of_none rfl] at latest
    obtain ⟨there, settled⟩ := ih latest
    exact ⟨by simpa [Pool.newCache] using Nat.lt_succ_of_lt there,
      settled.keep (cached_newCache p cache) fun _ _ n _ found shows => ⟨n, found, shows⟩⟩
  | @build p past k given history inside ih =>
    have sound := history.reached.sound
    have caches : (p.build k given).2.caches.size = p.caches.size := by simp [Pool.build]
    rw [caches]
    by_cases same : k = cache
    · subst same
      rw [readyLists_concat, Occurrence.readyFor, if_pos rfl, Option.toList_some, List.getLast?_concat] at latest
      cases latest
      exact ⟨inside, sound.settled_build inside ready⟩
    · have other (picker : Nat) : (Occurrence.build k given picker).readyFor cache = none := if_neg same
      rw [readyLists_concat_of_none (other _)] at latest
      obtain ⟨there, settled⟩ := ih latest
      have different := Ne.symm same
      exact ⟨there, settled.keep (cached_build_of_ne different) fun entry known n c found shows =>
        ⟨n, (history.apart.spared sound inside different known).trans found, shows⟩⟩
  | pick picker ctx history ih =>
    rw [readyLists_concat_of_none rfl] at latest
    obtain ⟨there, settled⟩ := ih latest
    obtain ⟨change, same, quiet⟩ := history.reached.sound.quiet_pick picker ctx
    exact ⟨same.caches ▸ there, settled.retracked same fun r write t => (quiet r write t).1⟩
  | report completion _ _ ih =>
    rw [readyLists_concat_of_none rfl] at latest
    obtain ⟨there, settled⟩ := ih latest
    refine ⟨there, settled.retracked (Retracked.mapTrack _ _ _) fun r write t => ?_⟩
    split <;> rfl

/-- What a build makes of the caches and the pickers. -/
theorem build_eq (there : cache < p.caches.size) (ready : List (Ready C)) :
    (p.build cache ready).2 =
      { nodes := (p.build cache ready).2.nodes
        caches := p.caches.setIfInBounds cache ((p.build cache ready).2.cached cache)
        pickers := p.pickers.push (((p.build cache ready).2.cached cache).map Prod.snd) } := by
  rw [cached_build there]
  rfl

section Again

variable (settled : Settled p cache ready) (sound : p.Sound)

include settled sound

/-- What the cache knows for an entry that counts. -/
theorem Settled.known : List.Forall₂ (fun c entry => (entry.1 = c.id ∧ (p.cached cache).lookup c.id = some entry.2) ∧
    ∃ n, p.nodes[entry.2]? = some n ∧ Shows n c) (Candidate.counting ready) (p.cached cache) := by
  refine List.forall₂_iff_zip.2 ⟨settled.length_eq, fun {c entry} pair => ?_⟩
  obtain ⟨named, shown⟩ := List.forall₂_zip settled pair
  exact ⟨⟨named, named ▸ (sound.cached cache).lookup (List.of_mem_zip pair).2⟩, shown⟩

/-- A build uses the same records again, and has no other connections and groups for them. -/
theorem Settled.placed (there : cache < p.caches.size) :
    List.Forall₂ (fun c entry => (entry.1 = c.id ∧ (p.cached cache).lookup c.id = some entry.2) ∧
      (p.build cache ready).2.nodes[entry.2]? = p.nodes[entry.2]?) (Candidate.counting ready)
      ((p.build cache ready).2.cached cache) := by
  have known := settled.known sound
  have shown : ∀ c ∈ Candidate.counting ready, ∃ r n, (p.cached cache).lookup c.id = some r ∧ p.nodes[r]? = some n ∧
      Shows n c := by
    intro c member
    obtain ⟨i, inside, rfl⟩ := List.getElem_of_mem member
    obtain ⟨⟨_, found⟩, n, here, shows⟩ := known.get inside (known.length_eq ▸ inside)
    exact ⟨_, n, found, here, shows⟩
  refine ((List.forall₂_and_left _ _).2 ⟨shown, (sound.rebuilt there ready).placed⟩).imp fun c entry both => ?_
  obtain ⟨⟨r, n, found, here, shows⟩, placed⟩ := both
  obtain ⟨rfl, refreshed⟩ := placed.reused r n found here shows.fits
  refine ⟨⟨placed.id, found⟩, ?_⟩
  rw [refreshed, here, ← shows.conn, ← shows.group]

theorem Settled.cached_build (there : cache < p.caches.size) :
    (p.build cache ready).2.cached cache = p.cached cache := by
  have known := (settled.known sound).imp fun _ _ => And.left
  refine List.right_unique_forall₂' ?_ ((settled.placed sound there).imp fun _ _ => And.left) known
  rintro c ⟨_, _⟩ ⟨_, _⟩ ⟨rfl, first⟩ ⟨rfl, second⟩
  cases first.symm.trans second
  rfl

theorem Settled.nodes_build (there : cache < p.caches.size) : (p.build cache ready).2.nodes = p.nodes := by
  have rebuilt := sound.rebuilt there ready
  have placed := settled.placed sound there
  refine Array.ext_getElem? fun r => ?_
  by_cases member : r ∈ (p.build cache ready).2.members p.pickers.size
  · rw [rebuilt.members] at member
    obtain ⟨entry, listed, rfl⟩ := List.mem_map.1 member
    obtain ⟨i, inside, rfl⟩ := List.getElem_of_mem listed
    exact (placed.get (placed.length_eq ▸ inside) inside).2
  · exact rebuilt.spared r member

/-- A build that has nothing new to say only makes one more picker. -/
theorem Settled.build_eq (there : cache < p.caches.size) :
    (p.build cache ready).2 = { p with pickers := p.pickers.push ((p.cached cache).map Prod.snd) } := by
  have same : p.caches.setIfInBounds cache (p.cached cache) = p.caches := by
    rw [cached, Array.getD_eq_getD_getElem?, Array.getElem?_eq_getElem there, Option.getD_some,
      Array.setIfInBounds_def, dif_pos there, Array.set_getElem_self]
  rw [Pool.build_eq there, settled.nodes_build sound there, settled.cached_build sound there, same]

end Again

end Pool

end Fairway
