import Fairway.Balance.Picker

namespace Fairway

/-- A node with a rotation for reads and one for writes. -/
structure PoolNode (C : Type) where
  id : String
  conn : C
  group : String
  read : Track
  write : Track

/-- A ready entry that a read/write picker can use: it carries both weights. -/
structure Candidate (C : Type) where
  id : String
  conn : C
  group : String
  read : UInt32
  write : UInt32

/-- What a pick leaves behind for the report on its call: a node and one of its tracks. -/
structure Ticket where
  node : Nat
  write : Bool
  deriving DecidableEq

/-- Read/write pickers over shared node records. A record is known by its place in `nodes`; caches and
pickers hold such places, so a record can be in several of them at once. -/
structure Pool (C : Type) where
  nodes : Array (PoolNode C) := #[]
  /-- For each cache the node ids it knows and their records. -/
  caches : Array (List (String × Nat)) := #[]
  /-- For each picker its records in the order of picking. -/
  pickers : Array (List Nat) := #[]

namespace PoolNode

variable {C : Type}

def ofCandidate (c : Candidate C) : PoolNode C :=
  ⟨c.id, c.conn, c.group, Track.ofWeight c.read, Track.ofWeight c.write⟩

def track (n : PoolNode C) (write : Bool) : Track := if write then n.write else n.read

def mapTrack (write : Bool) (f : Track → Track) (n : PoolNode C) : PoolNode C :=
  if write then { n with write := f n.write } else { n with read := f n.read }

def isConfiguredAs (n : PoolNode C) (c : Candidate C) : Bool :=
  n.read.isConfiguredAs c.read && n.write.isConfiguredAs c.write

/-- The record with the connection and group of a newer entry; its tracks stay. -/
def refresh (c : Candidate C) (n : PoolNode C) : PoolNode C :=
  { n with conn := c.conn, group := c.group }

end PoolNode

/-- Without both weights an entry is of no use; the group defaults to the empty one and the node to the
address. -/
def Candidate.ofReady? {C : Type} (r : Ready C) : Option (Candidate C) :=
  match r.address.attributes.readWeight, r.address.attributes.writeWeight with
  | some read, some write =>
    some ⟨r.address.attributes.node.getD r.address.addr, r.conn,
      r.address.attributes.group.getD "", read, write⟩
  | _, _ => none

namespace Pool

variable {C : Type}

/-- One more candidate of a build that has chosen `chosen` so far. A node id counts once; a cached record
of unchanged weights is refreshed and reused, any other id gets a record of its own. -/
def enlist (cache : List (String × Nat)) (state : Array (PoolNode C) × List (String × Nat))
    (c : Candidate C) : Array (PoolNode C) × List (String × Nat) :=
  let (nodes, chosen) := state
  if (chosen.lookup c.id).isSome then state
  else
    match (cache.lookup c.id).filter fun r => (nodes[r]?).any (·.isConfiguredAs c) with
    | some r => (nodes.modify r (PoolNode.refresh c), chosen ++ [(c.id, r)])
    | none => (nodes.push (PoolNode.ofCandidate c), chosen ++ [(c.id, nodes.size)])

def newCache (p : Pool C) : Nat × Pool C :=
  (p.caches.size, { p with caches := p.caches.push [] })

/-- A picker over the ready entries. Afterwards the cache knows exactly the picker's own records. -/
def build (p : Pool C) (cache : Nat) (ready : List (Ready C)) : Nat × Pool C :=
  let known := p.caches.getD cache []
  let (nodes, chosen) := (ready.filterMap Candidate.ofReady?).foldl (enlist known) (p.nodes, [])
  (p.pickers.size,
    { nodes
      caches := p.caches.setIfInBounds cache chosen
      pickers := p.pickers.push (chosen.map Prod.snd) })

def members (p : Pool C) (picker : Nat) : List Nat := p.pickers.getD picker []

def inGroup (p : Pool C) (picker : Nat) (group : String) : List Nat :=
  (p.members picker).filter fun r => (p.nodes[r]?).any (·.group == group)

def trackOf (p : Pool C) (ticket : Ticket) : Option Track :=
  (p.nodes[ticket.node]?).map (·.track ticket.write)

def mapTrack (p : Pool C) (ticket : Ticket) (f : Track → Track) : Pool C :=
  { p with nodes := p.nodes.modify ticket.node (PoolNode.mapTrack ticket.write f) }

/-- A rotation over the records of the requested group, on their read or their write tracks. -/
def pick (p : Pool C) (picker : Nat) (ctx : CallContext) :
    Except PickError (Ticket × C × Pool C) :=
  if (p.members picker).isEmpty then .error .noBackendAvailable
  else
    let tickets := (p.inGroup picker ctx.requestedGroup).map fun r => (⟨r, ctx.isWrite⟩ : Ticket)
    let tracks := tickets.filterMap fun t => (p.trackOf t).map (t, ·)
    let total := Track.totalEfficient (tracks.map Prod.snd)
    let ahead := tickets.foldl (fun p t => p.mapTrack t Track.advance) p
    match leader (tracks.map fun (t, track) => (t, track.advance.current)) with
    | none => .error (.noMatchingGroup ctx.requestedGroup)
    | some t =>
      match p.nodes[t.node]? with
      | none => .error .noBackendAvailable
      | some node => .ok (t, node.conn, ahead.mapTrack t (Track.settle total))

/-- The end of a call, counted on the record and track that the pick selected. -/
def report (p : Pool C) (ticket : Ticket) (completion : Completion) : Pool C :=
  p.mapTrack ticket (Track.record completion.outcome)

def snapshot (p : Pool C) (picker : Nat) : List (PoolNode C) :=
  (p.members picker).filterMap (p.nodes[·]?)

end Pool

end Fairway
