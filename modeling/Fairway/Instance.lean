import Fairway.InputError

namespace Fairway

/-- The identity of one running instance of a service. -/
structure Instance where
  name : String
  group : String
  address : String
  deriving DecidableEq

namespace Instance

/-- The fields in the order in which they are checked and written. -/
def fields (i : Instance) : List (InstanceField × String) :=
  [(.name, i.name), (.group, i.group), (.address, i.address)]

/-- Name and address are required, and no field may hold the separator of keys. -/
def validate (i : Instance) : Except InputError Unit :=
  if i.name.isEmpty then .error .unnamedInstance
  else if i.address.isEmpty then .error (.unaddressedInstance i.name)
  else
    match i.fields.find? fun (_, value) => value.toList.contains '/' with
    | some (field, value) => .error (.slashInField field value)
    | none => .ok ()

def display (i : Instance) : String := i.name ++ "/" ++ i.group ++ "/" ++ i.address

end Instance

end Fairway
