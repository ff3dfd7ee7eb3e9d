import Fairway.Text.Quoted

namespace Fairway

inductive InstanceField where
  | name
  | group
  | address
  deriving DecidableEq

def InstanceField.label : InstanceField → String
  | .name => "name"
  | .group => "group"
  | .address => "address"

/-- Why a text, an identity or a key is not acceptable. -/
inductive InputError where
  | unnamedInstance
  | unaddressedInstance (name : String)
  | slashInField (field : InstanceField) (value : String)
  | malformedFailoverKey (key : String)
  | malformedTarget (text : String)
  | malformedDuration (text : String)
  deriving DecidableEq

/-- Errors of identities and keys, of targets, and of configuration are worded apart. -/
inductive InputError.Topic where
  | param
  | target
  | config
  deriving DecidableEq

def InputError.topic : InputError → InputError.Topic
  | .malformedTarget _ => .target
  | .malformedDuration _ => .config
  | _ => .param

def InputError.message : InputError → String
  | .unnamedInstance => "invalid param: service instance name should not be empty"
  | .unaddressedInstance name =>
    "invalid param: service instance " ++ name ++ " has an empty address"
  | .slashInField field value =>
    "invalid param: service instance " ++ field.label ++ " must not contain '/': " ++ value
  | .malformedFailoverKey key => "invalid param: invalid failover key: " ++ key
  | .malformedTarget text => "invalid target: " ++ text
  | .malformedDuration text => "config error: invalid duration: " ++ quoted text

end Fairway
