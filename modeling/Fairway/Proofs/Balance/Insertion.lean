import Fairway.Proofs.Balance.Repetition

namespace Fairway

/-- The place of something in a list after one more thing has come in at `k`. -/
def displaced (k j : Nat) : Nat := if j < k then j else j + 1

theorem displaced_eq_iff {k n j : Nat} (before : k ≤ n) : displaced k j = n + 1 ↔ j = n := by
  rw [displaced]
  split <;> omega

theorem getElem?_displaced {α : Type} (before after : List α) (new : α) (j : Nat) :
    (before ++ new :: after)[displaced before.length j]? = (before ++ after)[j]? := by
  rw [displaced]
  split
  case isTrue early => rw [List.getElem?_append_left early, List.getElem?_append_left early]
  case isFalse late =>
    have place : j + 1 - before.length = (j - before.length) + 1 := by omega
    rw [List.getElem?_append_right (by omega), List.getElem?_append_right (by omega), place, List.getElem?_cons_succ]

namespace Occurrence

variable {C : Type}

/-- The same occurrence where one more has come in at a place in the history, and one more picker among the pickers. -/
def displace (place picker : Nat) : Occurrence C → Occurrence C
  | newCache => newCache
  | build cache ready j => build cache ready (displaced picker j)
  | pick j ctx selected => pick (displaced picker j) ctx selected
  | report k completion => report (displaced place k) completion

theorem selected_displace (place picker : Nat) (o : Occurrence C) :
    (o.displace place picker).selected = o.selected := by
  cases o <;> rfl

/-- A report still finds the pick that it is about. -/
theorem selected_insert (past later : List (Occurrence C)) (o : Occurrence C) (picker k : Nat) :
    ((past ++ o :: later.map (displace past.length picker))[displaced past.length k]?).bind selected =
      ((past ++ later)[k]?).bind selected := by
  rw [getElem?_displaced]
  by_cases early : k < past.length
  · rw [List.getElem?_append_left early, List.getElem?_append_left early]
  · rw [List.getElem?_append_right (by omega), List.getElem?_append_right (by omega), List.getElem?_map,
      Option.bind_map]
    exact congrArg _ (funext (selected_displace past.length picker))

end Occurrence

namespace Pool

variable {C : Type} {p q : Pool C} {past later : List (Occurrence C)} {cache k : Nat} {ready : List (Ready C)}

theorem mapTracks_pickers (p : Pool C) (pickers : Array (List Nat)) (tickets : List Ticket) (f : Track → Track) :
    tickets.foldl (fun p t => p.mapTrack t f) { p with pickers } =
      { tickets.foldl (fun p t => p.mapTrack t f) p with pickers } := by
  induction tickets generalizing p with
  | nil => rfl
  | cons t tickets ih => exact ih (p.mapTrack t f)

/-- A pick sees the records of its own picker only. -/
theorem pick_pickers {pickers : Array (List Nat)} {picker other : Nat}
    (same : pickers.getD other [] = p.members picker) (ctx : CallContext) :
    ({ p with pickers } : Pool C).pick other ctx =
      (p.pick picker ctx).map fun (ticket, conn, q) => (ticket, conn, { q with pickers }) := by
  have members : ({ p with pickers } : Pool C).members other = p.members picker := same
  have trackOf (t : Ticket) : ({ p with pickers } : Pool C).trackOf t = p.trackOf t := rfl
  simp only [pick, inGroup, members, trackOf, mapTracks_pickers]
  split
  · rfl
  · generalize leader _ = led
    cases led with
    | none => rfl
    | some t =>
      simp only
      cases p.nodes[t.node]? <;> rfl

/-- The second pool has one more picker, at place `k`. Nothing else is different. -/
structure Inserted (k : Nat) (p q : Pool C) : Prop where
  nodes : q.nodes = p.nodes
  caches : q.caches = p.caches
  size : q.pickers.size = p.pickers.size + 1
  before : k ≤ p.pickers.size
  pickers : ∀ j, q.pickers[displaced k j]? = p.pickers[j]?

namespace Inserted

theorem eq (inserted : Inserted k p q) : q = { p with pickers := q.pickers } := by
  rw [← inserted.nodes, ← inserted.caches]

theorem push (p : Pool C) (members : List Nat) :
    Inserted p.pickers.size p { p with pickers := p.pickers.push members } where
  nodes := rfl
  caches := rfl
  size := Array.size_push _
  before := Nat.le_refl _
  pickers j := by
    simp only [displaced, Array.getElem?_push]
    split
    case isTrue early => rw [if_neg early.ne]
    case isFalse late => rw [if_neg (by omega), Array.getElem?_eq_none (by omega), Array.getElem?_eq_none (by omega)]

theorem members (inserted : Inserted k p q) (picker : Nat) : q.members (displaced k picker) = p.members picker := by
  rw [Pool.members, Array.getD_eq_getD_getElem?, inserted.pickers, Pool.members, Array.getD_eq_getD_getElem?]

theorem snapshot (inserted : Inserted k p q) (picker : Nat) :
    q.snapshot (displaced k picker) = p.snapshot picker := by
  rw [Pool.snapshot, inserted.members, inserted.nodes, Pool.snapshot]

theorem pick (inserted : Inserted k p q) (picker : Nat) (ctx : CallContext) :
    q.pick (displaced k picker) ctx =
      (p.pick picker ctx).map fun (ticket, conn, s) => (ticket, conn, { s with pickers := q.pickers }) := by
  have picked := pick_pickers (inserted.members picker) ctx
  rwa [← inserted.eq] at picked

theorem selection (inserted : Inserted k p q) (picker : Nat) (ctx : CallContext) :
    q.selection (displaced k picker) ctx = p.selection picker ctx := by
  rw [Pool.selection, inserted.pick, Pool.selection]
  cases p.pick picker ctx <;> rfl

theorem newCache (inserted : Inserted k p q) : Inserted k p.newCache.2 q.newCache.2 where
  nodes := inserted.nodes
  caches := congrArg (·.push []) inserted.caches
  size := inserted.size
  before := inserted.before
  pickers := inserted.pickers

theorem build (inserted : Inserted k p q) (cache : Nat) (ready : List (Ready C)) :
    Inserted k (p.build cache ready).2 (q.build cache ready).2 := by
  have size := inserted.size
  have before := inserted.before
  have pickers := inserted.pickers
  rw [inserted.eq]
  refine ⟨rfl, rfl, ?_, ?_, fun j => ?_⟩
  · simp [Pool.build, size]
  · simpa [Pool.build] using Nat.le_succ_of_le before
  · simp only [Pool.build, Array.getElem?_push, pickers, size, displaced_eq_iff before]

/-- A pick of the displaced picker leaves the same records behind. -/
theorem serve (inserted : Inserted k p q) (picker : Nat) (ctx : CallContext) :
    Inserted k (p.serve picker (.pick ctx)) (q.serve (displaced k picker) (.pick ctx)) := by
  have alike := inserted.pick picker ctx
  cases picked : p.pick picker ctx with
  | error e =>
    rw [picked] at alike
    rwa [serve_of_fails picked, serve_of_fails alike]
  | ok a =>
    obtain ⟨ticket, conn, s⟩ := a
    rw [picked] at alike
    rw [serve_of_picked picked, serve_of_picked alike]
    obtain ⟨_, same⟩ := retracked_pick picked
    have kept := same.pickers.symm
    exact ⟨rfl, rfl, kept ▸ inserted.size, kept ▸ inserted.before, kept ▸ inserted.pickers⟩

theorem report (inserted : Inserted k p q) (ticket : Ticket) (completion : Completion) :
    Inserted k (p.report ticket completion) (q.report ticket completion) where
  nodes := by
    rw [Pool.report, Pool.mapTrack, inserted.nodes]
    rfl
  caches := inserted.caches
  size := inserted.size
  before := inserted.before
  pickers := inserted.pickers

end Inserted

/-- Whatever happens later, one more picker at the time of `past` only moves the later ones. -/
theorem History.insert (history : History p past) (inserted : Inserted p.pickers.size p (p.build cache ready).2)
    (there : cache < p.caches.size) (whole : History q (past ++ later)) :
    ∃ s, History s (past ++ .build cache ready p.pickers.size ::
        later.map (Occurrence.displace past.length p.pickers.size)) ∧
      Inserted p.pickers.size q s := by
  induction later using List.reverseRecOn generalizing q with
  | nil =>
    rw [List.append_nil] at whole
    obtain rfl := history.unique whole
    exact ⟨_, history.build ready there, inserted⟩
  | append_singleton later o ih =>
    rw [← List.append_assoc] at whole
    obtain ⟨t, before, cases⟩ := whole.latest
    obtain ⟨s, again, alike⟩ := ih before
    rw [List.map_append, List.map_singleton, ← List.cons_append, ← List.append_assoc]
    rcases cases with ⟨rfl, rfl⟩ | ⟨other, given, inside, rfl, rfl⟩ | ⟨picker, ctx, rfl, rfl⟩ |
      ⟨k, completion, ticket, made, rfl, rfl⟩
    · exact ⟨_, again.newCache, alike.newCache⟩
    · have built := again.build given (alike.caches ▸ inside)
      have place : displaced p.pickers.size t.pickers.size = s.pickers.size := by
        rw [(displaced_eq_iff alike.before).2 rfl, alike.size]
      refine ⟨_, ?_, alike.build other given⟩
      rw [Occurrence.displace, place]
      exact built
    · refine ⟨_, ?_, alike.serve picker ctx⟩
      rw [Occurrence.displace, ← alike.selection]
      exact again.pick _ ctx
    · refine ⟨_, again.report completion ?_, alike.report ticket completion⟩
      rw [Occurrence.selected_insert]
      exact made

/-- What builds do, whatever has been built, picked and reported before. -/
structure Rebuilds (p : Pool C) (past : List (Occurrence C)) : Prop where
  rebuilt : ∀ cache ready, cache < p.caches.size → Rebuilt p (p.build cache ready).2 cache ready
  /-- A build that says again what the latest on its cache has said could as well be left out, whatever comes later:
  all pickers pick what they would have picked, over the same connections, and their nodes look the same. -/
  unnoticed : ∀ cache ready, (readyLists past cache).getLast? = some ready → ∀ later q, History q (past ++ later) →
    ∃ s, History s (past ++ .build cache ready p.pickers.size ::
        later.map (Occurrence.displace past.length p.pickers.size)) ∧
      (∀ picker ctx, (s.pick (displaced p.pickers.size picker) ctx).map (fun (ticket, conn, _) => (ticket, conn)) =
        (q.pick picker ctx).map fun (ticket, conn, _) => (ticket, conn)) ∧
      ∀ picker, s.snapshot (displaced p.pickers.size picker) = q.snapshot picker

theorem History.rebuilds (history : History p past) : Rebuilds p past where
  rebuilt cache ready there := history.reached.sound.rebuilt there ready
  unnoticed cache ready latest later q whole := by
    obtain ⟨there, settled⟩ := history.settled latest
    have inserted := Inserted.push p ((p.cached cache).map Prod.snd)
    rw [← settled.build_eq history.reached.sound there] at inserted
    obtain ⟨s, again, alike⟩ := history.insert inserted there whole
    refine ⟨s, again, fun picker ctx => ?_, alike.snapshot⟩
    rw [alike.pick]
    cases q.pick picker ctx <;> rfl

/-- A call to the node fails, and then the node moves to another group. -/
def movedAfterFailure : List (Occurrence String) :=
  [.newCache, .build 0 oneEntry 0, .pick 0 { group := some "main" } (some ⟨0, false⟩), .report 2 (.status 14),
    .build 0 threeEntries 1]

/-- Another build of the same entries makes a picker of the same node, which does not forget the failure. -/
theorem rebuilds_movedAfterFailure : ∃ p, History p movedAfterFailure ∧ Rebuilds p movedAfterFailure ∧
    (readyLists movedAfterFailure 0).getLast? = some threeEntries ∧
    (p.build 0 threeEntries).2.pickers = #[[0], [0], [0]] ∧
    (p.build 0 threeEntries).2.nodes.toList.map (fun n => (n.conn, n.group, n.read)) =
      [("second", "spare", ⟨2, 2, 1⟩)] := by
  have built : History _ [.newCache, .build 0 oneEntry 0] := .build oneEntry (.newCache .start) (by decide)
  have called := History.pick 0 { group := some "main" } built
  have failed := @History.report _ _ _ 2 ⟨0, false⟩ (.status 14) called rfl
  have moved : History _ movedAfterFailure := @History.build _ _ _ 0 threeEntries failed (by decide)
  exact ⟨_, moved, moved.rebuilds, rfl, rfl, rfl⟩

end Pool

end Fairway
