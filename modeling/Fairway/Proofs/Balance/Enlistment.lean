import Mathlib.Data.List.Forall2
import Fairway.Proofs.Balance.Affinity

namespace Fairway

namespace Candidate

variable {C : Type}

/-- The first candidate of each id, in order. -/
def distinct : List (Candidate C) → List (Candidate C)
  | [] => []
  | c :: rest => c :: (distinct rest).filter (·.id != c.id)

/-- The entries that count in a build: those with both weights, and of one id the first. -/
def counting (ready : List (Ready C)) : List (Candidate C) := distinct (ready.filterMap ofReady?)

theorem distinct_concat (candidates : List (Candidate C)) (c : Candidate C) :
    distinct (candidates ++ [c]) =
      if c.id ∈ (distinct candidates).map id then distinct candidates else distinct candidates ++ [c] := by
  induction candidates with
  | nil => rfl
  | cons d rest ih =>
    rw [List.cons_append, distinct, ih, distinct]
    by_cases same : c.id = d.id
    · have new : c.id ∈ (d :: (distinct rest).filter (·.id != d.id)).map id := by simp [same]
      rw [if_pos new]
      split <;> simp [same]
    · have apart : c.id ∈ (d :: (distinct rest).filter (·.id != d.id)).map id ↔ c.id ∈ (distinct rest).map id := by
        simp only [List.map_cons, List.mem_cons, same, false_or, List.mem_map, List.mem_filter, bne_iff_ne]
        exact ⟨fun ⟨e, member, alike⟩ => ⟨e, member.1, alike⟩,
          fun ⟨e, member, alike⟩ => ⟨e, ⟨member, alike ▸ same⟩, alike⟩⟩
      simp only [apart]
      split <;> simp [same]

end Candidate

namespace Pool

variable {C : Type} {p : Pool C} {nodes now later : Array (PoolNode C)} {done : List (Candidate C)}
  {known chosen : List (String × Nat)} {state : Array (PoolNode C) × List (String × Nat)} {c : Candidate C}
  {entry : String × Nat} {cache : Nat} {ready : List (Ready C)}

/-- The weights of a record are those of a candidate. -/
def Fits (n : PoolNode C) (c : Candidate C) : Prop :=
  ∀ write, (n.track write).configured = Track.normalise (c.weight write)

/-- A record as a build leaves it for a candidate, but for what calls have done to its tracks. -/
structure Shows (n : PoolNode C) (c : Candidate C) : Prop where
  id : n.id = c.id
  conn : n.conn = c.conn
  group : n.group = c.group
  fits : Fits n c

/-- What a candidate gets in a build. `known` is what the cache knew before, `nodes` are the records before the build
and `later` those after it. -/
structure Placed (known : List (String × Nat)) (nodes later : Array (PoolNode C)) (c : Candidate C)
    (entry : String × Nat) : Prop where
  id : entry.1 = c.id
  /-- The record that the cache knew, if its weights are still those of the candidate. Its tracks stay, and the
  connection and the group are new. -/
  reused : ∀ r n, known.lookup c.id = some r → nodes[r]? = some n → Fits n c →
    entry.2 = r ∧ later[r]? = some { n with conn := c.conn, group := c.group }
  /-- Otherwise a record that there was not before, with new tracks. -/
  made : (∀ r n, known.lookup c.id = some r → nodes[r]? = some n → ¬Fits n c) →
    nodes.size ≤ entry.2 ∧ later[entry.2]? = some ⟨c.id, c.conn, c.group, .ofWeight c.read, .ofWeight c.write⟩

namespace Placed

theorem keep (placed : Placed known nodes now c entry) (same : later[entry.2]? = now[entry.2]?) :
    Placed known nodes later c entry where
  id := placed.id
  reused r n found there fits := by
    obtain ⟨here, refreshed⟩ := placed.reused r n found there fits
    exact ⟨here, by rw [← here, same, here, refreshed]⟩
  made unfit := by
    obtain ⟨new, fresh⟩ := placed.made unfit
    exact ⟨new, same.trans fresh⟩

/-- It is one or the other. -/
theorem cases (placed : Placed known nodes later c entry) :
    (∃ n, known.lookup c.id = some entry.2 ∧ nodes[entry.2]? = some n ∧ Fits n c ∧
      later[entry.2]? = some { n with conn := c.conn, group := c.group }) ∨
    (nodes.size ≤ entry.2 ∧
      later[entry.2]? = some ⟨c.id, c.conn, c.group, .ofWeight c.read, .ofWeight c.write⟩) := by
  by_cases reusable : ∃ r n, known.lookup c.id = some r ∧ nodes[r]? = some n ∧ Fits n c
  · obtain ⟨r, n, found, there, fits⟩ := reusable
    obtain ⟨rfl, refreshed⟩ := placed.reused r n found there fits
    exact .inl ⟨n, found, there, fits, refreshed⟩
  · exact .inr (placed.made fun r n found there fits => reusable ⟨r, n, found, there, fits⟩)

/-- Either way the record shows what the candidate says. -/
theorem shows (placed : Placed known nodes later c entry) (cached : Names nodes known) :
    ∃ n, later[entry.2]? = some n ∧ Shows n c := by
  rcases placed.cases with ⟨n, found, there, fits, refreshed⟩ | ⟨_, fresh⟩
  · have named := cached.id_of_lookup found
    rw [there, Option.map_some, Option.some.injEq] at named
    exact ⟨_, refreshed, named, rfl, rfl, fits⟩
  · refine ⟨_, fresh, rfl, rfl, rfl, fun write => ?_⟩
    cases write <;> rfl

/-- The record was known under the same id, or it is new. -/
theorem origin (placed : Placed known nodes later c entry) : entry ∈ known ∨ nodes.size ≤ entry.2 := by
  refine placed.cases.imp (fun ⟨_, found, _⟩ => ?_) And.left
  obtain ⟨_, _, split, _⟩ := List.lookup_eq_some_iff.1 found
  rw [split, ← placed.id]
  exact List.mem_append_right _ List.mem_cons_self

end Placed

/-- A build in the middle: what has been done for the candidates so far. -/
structure Drafted (known : List (String × Nat)) (nodes : Array (PoolNode C)) (done : List (Candidate C))
    (state : Array (PoolNode C) × List (String × Nat)) : Prop extends Enlisted nodes done state where
  placed : List.Forall₂ (Placed known nodes state.1) (Candidate.distinct done) state.2
  grown : nodes.size ≤ state.1.size

namespace Drafted

theorem start (known : List (String × Nat)) (nodes : Array (PoolNode C)) : Drafted known nodes [] (nodes, []) where
  toEnlisted := .start nodes
  placed := .nil
  grown := Nat.le_refl _

theorem ids (drafted : Drafted known nodes done state) :
    state.2.map Prod.fst = (Candidate.distinct done).map Candidate.id := by
  have same := drafted.placed.imp fun c entry placed => placed.id.symm
  rw [← List.forall₂_eq_eq_eq, List.forall₂_map_left_iff, List.forall₂_map_right_iff]
  exact same.flip.imp fun _ _ => Eq.symm

theorem unseen_iff (drafted : Drafted known nodes done state) (id : String) :
    state.2.lookup id = none ↔ id ∉ (Candidate.distinct done).map Candidate.id := by
  rw [← drafted.ids, List.lookup_eq_none_iff]
  simp only [List.mem_map, not_exists, not_and, bne_iff_ne, ne_eq, eq_comm (a := id)]

/-- What the cache knows under an id that is not chosen yet is not chosen under another id. -/
theorem unchosen (drafted : Drafted known nodes done state) (cached : Names state.1 known) {id : String} {r : Nat}
    (unseen : state.2.lookup id = none) (found : known.lookup id = some r) : r ∉ state.2.map Prod.snd := by
  intro taken
  obtain ⟨entry, member, rfl⟩ := List.mem_map.1 taken
  have named := cached.id_of_lookup found
  rw [drafted.names.ids entry member] at named
  rw [List.lookup_eq_none_iff] at unseen
  simpa [Option.some.inj named] using unseen entry member

theorem origin (drafted : Drafted known nodes done state) (member : entry ∈ state.2) :
    entry ∈ known ∨ nodes.size ≤ entry.2 := by
  obtain ⟨i, inside, rfl⟩ := List.getElem_of_mem member
  exact (drafted.placed.get (drafted.placed.length_eq ▸ inside) inside).origin

/-- One more candidate that has a record of its own. -/
theorem choose (drafted : Drafted known nodes done state) {r : Nat} (new : state.2.lookup c.id = none)
    (spared : ∀ entry ∈ state.2, later[entry.2]? = state.1[entry.2]?) (here : Placed known nodes later c (c.id, r)) :
    List.Forall₂ (Placed known nodes later) (Candidate.distinct (done ++ [c])) (state.2 ++ [(c.id, r)]) := by
  rw [Candidate.distinct_concat, if_neg ((drafted.unseen_iff c.id).1 new)]
  refine List.rel_append (List.forall₂_iff_zip.2 ⟨drafted.placed.length_eq, fun {d entry} pair => ?_⟩) (.cons here .nil)
  exact (List.forall₂_zip drafted.placed pair).keep (spared entry (List.of_mem_zip pair).2)

theorem next (drafted : Drafted known nodes done state) (cached : Names state.1 known) (c : Candidate C) :
    Drafted known nodes (done ++ [c]) (enlist known state c) := by
  have enlisted := drafted.toEnlisted.next cached c
  have names := drafted.names
  obtain ⟨now, chosen⟩ := state
  have grown := drafted.grown.trans (extends_enlist known now chosen c).size_le
  refine ⟨enlisted, ?_, grown⟩
  rcases enlist_cases known now chosen c with ⟨seen, same⟩ | ⟨new, r, found, fits, same⟩ | ⟨new, unfit, same⟩
  · have before : c.id ∈ (Candidate.distinct done).map Candidate.id :=
      Classical.not_not.1 (mt (drafted.unseen_iff c.id).2 seen)
    rw [same, Candidate.distinct_concat, if_pos before]
    exact drafted.placed
  · have unchosen := drafted.unchosen cached new found
    have before := drafted.others r unchosen
    cases there : now[r]? with
    | none => simp [there] at fits
    | some n =>
      rw [same]
      rw [there, Option.any_some, PoolNode.isConfiguredAs_iff] at fits
      rw [there] at before
      refine drafted.choose new (fun entry member => ?_) ⟨rfl, fun s m known' there' _ => ?_, fun unfit => ?_⟩
      · have other : r ≠ entry.2 := fun taken => unchosen (taken ▸ List.mem_map_of_mem member)
        rw [Array.getElem?_modify, if_neg other]
      · cases found.symm.trans known'
        cases before.trans there'
        refine ⟨rfl, ?_⟩
        rw [Array.getElem?_modify, if_pos rfl, there]
        rfl
      · exact absurd fits (unfit r n found before.symm)
  · rw [same]
    refine drafted.choose new (fun entry member => ?_) ⟨rfl, fun s m known' there' fits' => ?_, fun _ => ?_⟩
    · rw [Array.getElem?_push, if_neg (names.inside member).ne]
    · have before := drafted.others s (drafted.unchosen cached new known')
      refine absurd ?_ (unfit s known')
      rw [before, there', Option.any_some, PoolNode.isConfiguredAs_iff]
      exact fits'
    · exact ⟨drafted.grown, Array.getElem?_push_size⟩

theorem all (drafted : Drafted known nodes done state) (cached : Names state.1 known)
    (candidates : List (Candidate C)) :
    Drafted known nodes (done ++ candidates) (candidates.foldl (enlist known) state) := by
  induction candidates generalizing done state with
  | nil => simpa using drafted
  | cons c candidates ih =>
    have keeps := (names_enlist drafted.names cached c).1
    simpa using ih (drafted.next cached c) (cached.keep keeps)

end Drafted

/-- What a build does to a pool. -/
structure Rebuilt (p q : Pool C) (cache : Nat) (ready : List (Ready C)) : Prop where
  /-- The nodes of the picker are the entries that count, in the order in which they are ready. -/
  nodes : (q.snapshot p.pickers.size).map (fun n => (n.id, n.conn, n.group, n.read.configured, n.write.configured)) =
    (Candidate.counting ready).map fun c => (c.id, c.conn, c.group, Track.normalise c.read, Track.normalise c.write)
  /-- The cache knows the ids of these entries and no others, and under each the record of the picker. -/
  members : q.members p.pickers.size = (q.cached cache).map Prod.snd
  placed : List.Forall₂ (Placed (p.cached cache) p.nodes q.nodes) (Candidate.counting ready) (q.cached cache)
  /-- A record that the cache has no longer under its id is none of the picker's. -/
  dropped : ∀ id r, (p.cached cache).lookup id = some r → (q.cached cache).lookup id ≠ some r →
    r ∉ q.members p.pickers.size
  /-- All records but those of the picker are as they were. -/
  spared : ∀ r, r ∉ q.members p.pickers.size → q.nodes[r]? = p.nodes[r]?
  /-- The pickers that there were have the same records as before. -/
  older : ∀ picker < p.pickers.size, q.members picker = p.members picker
  /-- Other caches know what they knew. -/
  others : ∀ other, other ≠ cache → q.cached other = p.cached other

theorem Sound.drafted_build (sound : p.Sound) (there : cache < p.caches.size) (ready : List (Ready C)) :
    Drafted (p.cached cache) p.nodes (ready.filterMap Candidate.ofReady?)
      ((p.build cache ready).2.nodes, (p.build cache ready).2.cached cache) := by
  rw [cached_build there]
  exact (Drafted.start (p.cached cache) p.nodes).all (sound.cached cache) _

theorem map_snapshot {β : Type} {f : PoolNode C → β} {g : Candidate C → β} {candidates : List (Candidate C)}
    {entries : List (String × Nat)}
    (alike : List.Forall₂ (fun c entry => ∃ n, nodes[entry.2]? = some n ∧ f n = g c) candidates entries) :
    ((entries.map Prod.snd).filterMap (nodes[·]?)).map f = candidates.map g := by
  induction alike with
  | nil => rfl
  | cons first _ ih =>
    obtain ⟨n, there, same⟩ := first
    rw [List.map_cons, List.filterMap_cons, there, List.map_cons, same, ih, List.map_cons]

theorem Sound.rebuilt (sound : p.Sound) (there : cache < p.caches.size) (ready : List (Ready C)) :
    Rebuilt p (p.build cache ready).2 cache ready := by
  have drafted := sound.drafted_build there ready
  have members := members_build there ready
  refine {
    nodes := ?nodes
    members := members
    placed := drafted.placed
    dropped := ?dropped
    spared := fun r foreign => drafted.others r (members ▸ foreign)
    older := fun picker => members_build_of_lt
    others := fun other => cached_build_of_ne }
  case nodes =>
    rw [snapshot, members]
    refine map_snapshot (drafted.placed.imp fun c entry placed => ?_)
    obtain ⟨n, found, shows⟩ := placed.shows (sound.cached cache)
    refine ⟨n, found, ?_⟩
    rw [shows.id, shows.conn, shows.group]
    exact congrArg₂ (c.id, c.conn, c.group, ·, ·) (shows.fits false) (shows.fits true)
  case dropped =>
    intro id r known gone member
    rw [members] at member
    obtain ⟨entry, listed, rfl⟩ := List.mem_map.1 member
    obtain ⟨n, found, named⟩ := Option.map_eq_some_iff.1 ((sound.cached cache).id_of_lookup known)
    have after := ((keeps_build p cache ready).id_iff found).2 named
    rw [drafted.names.ids entry listed] at after
    obtain rfl : entry.1 = id := Option.some.inj after
    exact gone (drafted.names.lookup listed)

end Pool

end Fairway
