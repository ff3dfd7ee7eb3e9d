import Fairway.Instance

namespace Fairway

/-- An instance as it is published: weights for the pickers, and perhaps a node of its own. -/
structure Registration where
  name : String
  address : String
  group : String := ""
  weight : UInt32 := 1
  readWeight : UInt32 := 1
  writeWeight : UInt32 := 1
  node : Option String := none
  deriving DecidableEq

/-- What a picker may know of an address. Nothing is required. -/
structure Attributes where
  weight : Option UInt32 := none
  readWeight : Option UInt32 := none
  writeWeight : Option UInt32 := none
  group : Option String := none
  node : Option String := none
  deriving DecidableEq

structure Address where
  addr : String
  serverName : String := ""
  attributes : Attributes := {}
  deriving DecidableEq

namespace Registration

/-- The node that carries picker state from one resolution to the next. -/
def nodeId (r : Registration) : String := r.node.getD r.address

def identity (r : Registration) : Instance := ⟨r.name, r.group, r.address⟩

def attributes (r : Registration) : Attributes where
  weight := some r.weight
  readWeight := some r.readWeight
  writeWeight := some r.writeWeight
  group := some r.group
  node := some r.nodeId

def toAddress (r : Registration) : Address := ⟨r.address, r.name, r.attributes⟩

end Registration

end Fairway
