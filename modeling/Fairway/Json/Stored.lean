import Fairway.Json.Decode
import Fairway.Json.Write
import Fairway.Registration
import Fairway.Text.Utf8

namespace Fairway

namespace Json

def toBytes (j : Json) : Bytes := Utf8.encode j.render

def ofBytes? (bs : Bytes) : Option Json := parse (Utf8.decode bs)

def ofString? (s : String) : Option Json := parse (s.toList.map some)

def ofWeight (w : UInt32) : Json := ofNat w.toNat

end Json

namespace Instance

def toJson (i : Instance) : Json :=
  .object [Json.member "name" (.ofText i.name), Json.member "group" (.ofText i.group),
    Json.member "address" (.ofText i.address)]

def ofJson? (j : Json) : Option Instance :=
  match j.given ["name", "group", "address"] with
  | some [name, group, address] => do
    let name ← name.required Json.asText
    let group ← group.withDefault "" Json.asText
    let address ← address.required Json.asText
    return ⟨name, group, address⟩
  | _ => none

end Instance

namespace Registration

/-- Name and address are always given, the weights count as one where they are not. -/
def ofGiven? : List Json.Given → Option Registration
  | [name, address, group, weight, readWeight, writeWeight, node] => do
    let name ← name.required Json.asText
    let address ← address.required Json.asText
    let group ← group.withDefault "" Json.asText
    let weight ← weight.withDefault 1 Json.asWeight
    let readWeight ← readWeight.withDefault 1 Json.asWeight
    let writeWeight ← writeWeight.withDefault 1 Json.asWeight
    let node ← node.withDefault none (Json.asOption Json.asText)
    return ⟨name, address, group, weight, readWeight, writeWeight, node⟩
  | _ => none

def memberNames : List String :=
  ["name", "address", "group", "weight", "read_weight", "write_weight", "node"]

/-- A registration without a node of its own does not mention one. -/
def members (r : Registration) : List (Scanned × Json) :=
  [Json.member "name" (.ofText r.name), Json.member "address" (.ofText r.address),
    Json.member "group" (.ofText r.group), Json.member "weight" (.ofWeight r.weight),
    Json.member "read_weight" (.ofWeight r.readWeight),
    Json.member "write_weight" (.ofWeight r.writeWeight)] ++
  r.node.toList.map fun node => Json.member "node" (.ofText node)

def toJson (r : Registration) : Json := .object r.members

def ofJson? (j : Json) : Option Registration := (j.given memberNames).bind ofGiven?

end Registration

namespace Attributes

def toJson (a : Attributes) : Json :=
  .object [Json.member "weight" (.ofOption .ofWeight a.weight),
    Json.member "read_weight" (.ofOption .ofWeight a.readWeight),
    Json.member "write_weight" (.ofOption .ofWeight a.writeWeight),
    Json.member "group" (.ofOption .ofText a.group), Json.member "node" (.ofOption .ofText a.node)]

def ofJson? (j : Json) : Option Attributes :=
  match j.given ["weight", "read_weight", "write_weight", "group", "node"] with
  | some [weight, readWeight, writeWeight, group, node] => do
    let weight ← weight.optional Json.asWeight
    let readWeight ← readWeight.optional Json.asWeight
    let writeWeight ← writeWeight.optional Json.asWeight
    let group ← group.optional Json.asText
    let node ← node.optional Json.asText
    return ⟨weight, readWeight, writeWeight, group, node⟩
  | _ => none

end Attributes

namespace Address

def toJson (a : Address) : Json :=
  .object [Json.member "addr" (.ofText a.addr), Json.member "server_name" (.ofText a.serverName),
    Json.member "attributes" a.attributes.toJson]

def ofJson? (j : Json) : Option Address :=
  match j.given ["addr", "server_name", "attributes"] with
  | some [addr, serverName, attributes] => do
    let addr ← addr.required Json.asText
    let serverName ← serverName.required Json.asText
    let attributes ← attributes.required Attributes.ofJson?
    return ⟨addr, serverName, attributes⟩
  | _ => none

end Address

end Fairway
