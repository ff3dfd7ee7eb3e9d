import Fairway.Balance.Track
import Fairway.Registration

namespace Fairway

/-- Why a pick yields no connection: an empty pool, or no node in the group asked for. -/
inductive PickError where
  | noBackendAvailable
  | noMatchingGroup (group : String)
  deriving DecidableEq

namespace PickError

def message : PickError → String
  | .noBackendAvailable => "no backend available"
  | .noMatchingGroup group => "no backend available in group " ++ quoted group

/-- To a caller either error is unavailability. -/
def status (_ : PickError) : StatusCode := StatusCode.unavailable

end PickError

structure Ready (C : Type) where
  conn : C
  address : Address

/-- Smooth weighted rotation over nodes with one weight each. Without `adaptive` the outcomes of calls
are ignored. -/
structure WeightedPicker (C : Type) where
  nodes : List (C × Track)
  adaptive : Bool

namespace WeightedPicker

variable {C : Type}

def ofWeights (adaptive : Bool) (weights : List (C × UInt32)) : WeightedPicker C :=
  ⟨weights.map fun (conn, weight) => (conn, Track.ofWeight weight), adaptive⟩

/-- An address without a weight weighs one. -/
def ofReady (adaptive : Bool) (ready : List (Ready C)) : WeightedPicker C :=
  ofWeights adaptive (ready.map fun r => (r.conn, r.address.attributes.weight.getD 1))

def tracks (p : WeightedPicker C) : List Track := p.nodes.map Prod.snd

def mapTrack (p : WeightedPicker C) (node : Nat) (f : Track → Track) : WeightedPicker C :=
  { p with nodes := p.nodes.modify node fun (conn, t) => (conn, f t) }

/-- Every node advances; the first of those furthest ahead is selected and pays the total. The answer
holds its position, its connection and the picker after the pick. -/
def pick (p : WeightedPicker C) : Except PickError (Nat × C × WeightedPicker C) :=
  let ahead := p.nodes.map fun (conn, t) => (conn, t.advance)
  match leader (ahead.zipIdx.map fun ((conn, t), i) => ((i, conn), t.current)) with
  | none => .error .noBackendAvailable
  | some (i, conn) =>
    .ok (i, conn, mapTrack { p with nodes := ahead } i (Track.settle (Track.totalEfficient p.tracks)))

/-- The end of a call that node `node` was picked for. -/
def report (p : WeightedPicker C) (node : Nat) (completion : Completion) : WeightedPicker C :=
  if p.adaptive then p.mapTrack node (Track.record completion.outcome) else p

end WeightedPicker

end Fairway
