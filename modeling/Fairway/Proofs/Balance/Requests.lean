import Fairway.Proofs.Balance.Groups

namespace Fairway

/-- What is asked of a picker of a pool: a pick, or to count the end of a call. -/
inductive Request where
  | pick (ctx : CallContext)
  | report (ticket : Ticket) (completion : Completion)

/-- What a request is to the picker over one group and one kind of calls, if it is for that picker at all. The
records are those of the group. -/
def Request.move? (records : List Nat) (group : String) (write : Bool) : Request → Option Move
  | .pick ctx => if ctx.requestedGroup = group ∧ ctx.isWrite = write then some .pick else none
  | .report ticket completion =>
    if ticket.write = write ∧ ticket.node ∈ records then some (.report (records.idxOf ticket.node) completion)
    else none

namespace Pool

variable {C : Type}

/-- The pool after a request. A pick that fails leaves it in the middle of the pick. -/
def serve (p : Pool C) (picker : Nat) : Request → Pool C
  | .pick ctx =>
    match p.pick picker ctx with
    | .ok (_, _, q) => q
    | .error _ => p.ahead picker ctx
  | .report ticket completion => p.report ticket completion

def serveAll (p : Pool C) (picker : Nat) (requests : List Request) : Pool C :=
  requests.foldl (fun p request => p.serve picker request) p

/-- What a request comes to, if it is a pick for a group and a kind of calls. -/
def answer (p : Pool C) (picker : Nat) (group : String) (write : Bool) :
    Request → Option (Except PickError (Ticket × C))
  | .pick ctx =>
    if ctx.requestedGroup = group ∧ ctx.isWrite = write then
      some ((p.pick picker ctx).map fun (ticket, conn, _) => (ticket, conn))
    else none
  | .report _ _ => none

/-- What the picks for a group and a kind of calls come to, in order. -/
def answers (p : Pool C) (picker : Nat) (group : String) (write : Bool) :
    List Request → List (Except PickError (Ticket × C))
  | [] => []
  | request :: rest =>
    (p.answer picker group write request).toList ++ (p.serve picker request).answers picker group write rest

/-- What the picker over a group answers, in terms of the pool. -/
def told (p : Pool C) (picker : Nat) (group : String) (write : Bool) :
    Except PickError (Nat × C) → Except PickError (Ticket × C)
  | .ok (i, conn) => .ok (⟨(p.inGroup picker group).getD i 0, write⟩, conn)
  | .error _ => .error (p.refusal picker group)

section Serve

variable {p : Pool C} {picker : Nat} {group : String} {write : Bool}

theorem serve_of_fails {ctx : CallContext} {e : PickError} (failed : p.pick picker ctx = .error e) :
    p.serve picker (.pick ctx) = p := by
  rcases p.pick_cases picker ctx with ⟨_, still, _⟩ | ⟨i, r, n, _, _, picked⟩
  · simp only [serve, failed, still]
  · cases picked.symm.trans failed

theorem serve_of_picked {ctx : CallContext} {ticket : Ticket} {conn : C} {q : Pool C}
    (picked : p.pick picker ctx = .ok (ticket, conn, q)) : p.serve picker (.pick ctx) = q := by
  simp only [serve, picked]

/-- No request changes anything but tracks. -/
theorem retracked_serve (p : Pool C) (picker : Nat) (request : Request) :
    ∃ change, Retracked change p (p.serve picker request) := by
  cases request with
  | report ticket completion => exact ⟨_, Retracked.mapTrack p ticket _⟩
  | pick ctx =>
    cases picked : p.pick picker ctx with
    | error e =>
      rw [serve_of_fails picked]
      exact ⟨_, Retracked.refl p⟩
    | ok a =>
      obtain ⟨ticket, conn, q⟩ := a
      rw [serve_of_picked picked]
      exact retracked_pick picked

theorem retracked_serveAll (p : Pool C) (picker : Nat) (requests : List Request) :
    ∃ change, Retracked change p (p.serveAll picker requests) := by
  induction requests generalizing p with
  | nil => exact ⟨_, Retracked.refl p⟩
  | cons request requests ih =>
    obtain ⟨_, now⟩ := p.retracked_serve picker request
    obtain ⟨_, later⟩ := ih (p.serve picker request)
    exact ⟨_, now.trans later⟩

theorem Retracked.told {change : Nat → Bool → Track → Track} {q : Pool C} (same : Retracked change p q)
    (picker : Nat) (group : String) (write : Bool) : q.told picker group write = p.told picker group write := by
  funext a
  cases a <;> simp only [Pool.told, refusal, same.inGroup, same.members]

/-- What a request does to the view of a group, and what it comes to there. -/
theorem Sound.view_serve (sound : p.Sound) (picker : Nat) (group : String) (write : Bool) (request : Request) :
    (p.serve picker request).view picker group write =
      (p.view picker group write).after (request.move? (p.inGroup picker group) group write).toList ∧
    (p.answer picker group write request).toList =
      ((p.view picker group write).answers (request.move? (p.inGroup picker group) group write).toList).map
        (p.told picker group write) := by
  cases request with
  | report ticket completion =>
    simp only [serve, sound.view_report, Request.move?, answer]
    split <;> exact ⟨rfl, rfl⟩
  | pick ctx =>
    by_cases own : ctx.requestedGroup = group ∧ ctx.isWrite = write
    · have meant : (Request.pick ctx).move? (p.inGroup picker group) group write = some .pick := if_pos own
      obtain ⟨rfl, rfl⟩ := own
      rw [meant]
      rcases p.pick_cases picker ctx with ⟨empty, _, fails⟩ | ⟨i, r, n, there, alike, picked⟩
      · have refused := (WeightedPicker.pick_eq_error _ _).2 ⟨empty, rfl⟩
        rw [serve_of_fails fails]
        simp [answer, fails, WeightedPicker.move, WeightedPicker.answers, WeightedPicker.answer, refused,
          Except.map, told]
      · have place := getElem?_inGroup there
        rw [serve_of_picked picked, sound.view_settled there]
        simp [answer, picked, WeightedPicker.move, WeightedPicker.answers, WeightedPicker.answer, alike,
          Except.map, told, place]
    · have meant : (Request.pick ctx).move? (p.inGroup picker group) group write = none := if_neg own
      rw [meant]
      refine ⟨?_, by simp [answer, own, WeightedPicker.answers]⟩
      rcases p.pick_cases picker ctx with ⟨_, _, fails⟩ | ⟨i, r, n, there, _, picked⟩
      · rw [serve_of_fails fails]
        rfl
      · have selected := List.mem_of_getElem? (getElem?_inGroup there)
        rw [serve_of_picked picked, sound.view_settled_of_other selected own]
        rfl

/-- So a run of requests is to a group the run of those that are for it. -/
theorem Sound.view_serveAll (sound : p.Sound) (picker : Nat) (group : String) (write : Bool)
    (requests : List Request) :
    (p.serveAll picker requests).view picker group write =
      (p.view picker group write).after (requests.filterMap (Request.move? (p.inGroup picker group) group write)) ∧
    p.answers picker group write requests =
      ((p.view picker group write).answers
        (requests.filterMap (Request.move? (p.inGroup picker group) group write))).map
          (p.told picker group write) := by
  induction requests generalizing p with
  | nil => exact ⟨rfl, rfl⟩
  | cons request requests ih =>
    obtain ⟨now, first⟩ := sound.view_serve picker group write request
    obtain ⟨_, same⟩ := p.retracked_serve picker request
    obtain ⟨later, rest⟩ := ih (same.sound sound)
    have split : (request :: requests).filterMap (Request.move? (p.inGroup picker group) group write) =
        (request.move? (p.inGroup picker group) group write).toList ++
          requests.filterMap (Request.move? (p.inGroup picker group) group write) := by
      rw [List.filterMap_cons]
      cases request.move? (p.inGroup picker group) group write <;> rfl
    rw [same.inGroup, now] at later rest
    rw [same.told] at rest
    rw [split, WeightedPicker.after_append, WeightedPicker.answers_append, List.map_append, ← first, ← rest]
    exact ⟨later, rfl⟩

/-- A report on a pick goes to the node that the view of its group has selected, and to no other view. -/
theorem Sound.move?_report (sound : p.Sound) {ctx : CallContext} {ticket : Ticket} {conn : C} {q : Pool C}
    (picked : p.pick picker ctx = .ok (ticket, conn, q)) (completion : Completion) :
    ∃ i, (p.view picker ctx.requestedGroup ctx.isWrite).pick =
        .ok (i, conn, q.view picker ctx.requestedGroup ctx.isWrite) ∧
      (Request.report ticket completion).move? (p.inGroup picker group) group write =
        if ctx.requestedGroup = group ∧ ctx.isWrite = write then some (.report i completion) else none := by
  rcases p.pick_cases picker ctx with ⟨_, _, fails⟩ | ⟨i, r, n, there, alike, selected⟩
  · cases fails.symm.trans picked
  · cases selected.symm.trans picked
    have place := getElem?_inGroup there
    have member := List.mem_of_getElem? place
    refine ⟨i, sound.view_settled there ▸ alike, ?_⟩
    by_cases own : ctx.requestedGroup = group ∧ ctx.isWrite = write
    · obtain ⟨rfl, rfl⟩ := own
      simp [Request.move?, member, sound.idxOf_inGroup place]
    · have foreign : ¬(ctx.isWrite = write ∧ r ∈ p.inGroup picker group) := by
        rintro ⟨rfl, known⟩
        exact own ⟨group_unique member known, rfl⟩
      simp [Request.move?, own, foreign]

/-- A pick fails where its group has no nodes, and the error tells whether any other has. -/
theorem pick_eq_error (p : Pool C) (picker : Nat) (ctx : CallContext) (e : PickError) :
    p.pick picker ctx = .error e ↔
      (p.view picker ctx.requestedGroup ctx.isWrite).nodes = [] ∧ e = p.refusal picker ctx.requestedGroup := by
  rcases p.pick_cases picker ctx with ⟨empty, _, fails⟩ | ⟨i, r, n, there, _, picked⟩
  · simp [empty, fails, eq_comm]
  · have some_node : p.holders picker ctx.requestedGroup ≠ [] := by
      intro empty
      simp [empty] at there
    simp [picked, nodes_view, some_node]

/-- Where all records are new, the tracks are those of the weights. -/
theorem view_of_fresh {candidates : List (Candidate C)}
    (fresh : p.snapshot picker = candidates.map PoolNode.ofCandidate) :
    p.view picker group write = .ofWeights true
      ((candidates.filter (·.group == group)).map fun c => (c.conn, if write then c.write else c.read)) := by
  rw [view, fresh, List.filter_map, List.map_map, WeightedPicker.ofWeights, List.map_map]
  cases write <;> rfl

end Serve

/-- The picks and reports of one group and one kind of calls go as in an adaptive picker that has the nodes of
the group to itself and hears of nothing else. -/
structure Simulates (p : Pool C) (picker : Nat) (group : String) (write : Bool) (requests : List Request) :
    Prop where
  /-- The nodes of the group end with the same tracks, in the same order. -/
  tracks : (p.serveAll picker requests).view picker group write =
    (p.view picker group write).after (requests.filterMap (Request.move? (p.inGroup picker group) group write))
  /-- The picks come to the same nodes and connections. -/
  answers : p.answers picker group write requests =
    ((p.view picker group write).answers
      (requests.filterMap (Request.move? (p.inGroup picker group) group write))).map (p.told picker group write)
  /-- The end of a call is counted for the node that its pick has selected, and in no other group or kind of
  calls. -/
  reports : ∀ ctx ticket conn q completion,
    (p.serveAll picker requests).pick picker ctx = .ok (ticket, conn, q) →
    ∃ i, ((p.serveAll picker requests).view picker ctx.requestedGroup ctx.isWrite).pick =
        .ok (i, conn, q.view picker ctx.requestedGroup ctx.isWrite) ∧
      (Request.report ticket completion).move? (p.inGroup picker group) group write =
        if ctx.requestedGroup = group ∧ ctx.isWrite = write then some (.report i completion) else none
  /-- What is not for the group and the kind of calls leaves these tracks alone. -/
  spares : ∀ request : Request, request.move? (p.inGroup picker group) group write = none →
    ((p.serveAll picker requests).serve picker request).view picker group write =
      (p.serveAll picker requests).view picker group write
  /-- A pick that fails changes nothing at all. -/
  failing : ∀ ctx e, (p.serveAll picker requests).pick picker ctx = .error e →
    (p.serveAll picker requests).serve picker (.pick ctx) = p.serveAll picker requests
  /-- A group is missing where the picker has nodes, but none of that group. -/
  refused : ∀ ctx other, (p.serveAll picker requests).pick picker ctx = .error (.noMatchingGroup other) ↔
    other = ctx.requestedGroup ∧ p.members picker ≠ [] ∧
      ((p.serveAll picker requests).view picker ctx.requestedGroup ctx.isWrite).nodes = []
  unavailable : ∀ ctx, (p.serveAll picker requests).pick picker ctx = .error .noBackendAvailable ↔
    p.members picker = []
  /-- If all records of the picker are new at first, then the picker over the group is one over weights. -/
  fresh : ∀ candidates : List (Candidate C), p.snapshot picker = candidates.map PoolNode.ofCandidate →
    p.view picker group write = .ofWeights true
      ((candidates.filter (·.group == group)).map fun c => (c.conn, if write then c.write else c.read))

/-- Whatever has become of the pool before, and whatever is asked of the picker. -/
theorem simulates {p : Pool C} (reached : p.Reached) (picker : Nat) (group : String) (write : Bool)
    (requests : List Request) : Simulates p picker group write requests := by
  have sound := reached.sound
  obtain ⟨tracks, answers⟩ := sound.view_serveAll picker group write requests
  obtain ⟨_, same⟩ := p.retracked_serveAll picker requests
  have later := same.sound sound
  have members := same.members picker
  have records := same.inGroup picker group
  refine ⟨tracks, answers, ?reports, ?spares, fun ctx e failed => serve_of_fails failed, ?refused, ?unavailable,
    fun candidates => view_of_fresh⟩
  case reports =>
    intro ctx ticket conn q completion picked
    rw [← records]
    exact later.move?_report picked completion
  case spares =>
    intro request foreign
    rw [← records] at foreign
    rw [(later.view_serve picker group write request).1, foreign]
    rfl
  case refused =>
    intro ctx other
    rw [pick_eq_error, refusal, members]
    cases p.members picker <;> simp [and_comm]
  case unavailable =>
    intro ctx
    rw [pick_eq_error, refusal, members]
    cases empty : p.members picker with
    | nil => simp [nodes_view, holders, members, empty]
    | cons => simp

/-- A picker over two groups, the second node alone in its own. -/
def twoGroups : Pool String :=
  (Pool.build (Pool.newCache {}).2 0 [
    ⟨"first", "a:1", "", { readWeight := some 2, writeWeight := some 1, group := some "main" }⟩,
    ⟨"second", "b:1", "", { readWeight := some 4, writeWeight := some 0, group := some "spare" }⟩,
    ⟨"third", "c:1", "", { readWeight := some 1, writeWeight := some 3, group := some "main" }⟩]).2

/-- Reads of the first group among its writes, a pick for the other group, one for no group and late reports. -/
theorem simulates_twoGroups : twoGroups.Reached ∧
    twoGroups.view 0 "main" false = .ofWeights true [("first", 2), ("third", 1)] ∧
    Simulates twoGroups 0 "main" false [.pick { group := some "main" },
      .pick { kind := .write, group := some "main" }, .pick {}, .report ⟨2, true⟩ .success,
      .pick { group := some "spare" }, .pick { group := some "main" }, .report ⟨1, false⟩ (.status 13),
      .report ⟨0, false⟩ .deadlineExceeded, .pick { group := some "main" }] := by
  have reached : twoGroups.Reached := .build 0 _ (.newCache .start)
  exact ⟨reached, rfl, simulates reached 0 "main" false _⟩

end Pool

end Fairway
