import Fairway.Proofs.Failover.Records
import Fairway.Proofs.Registry.Stored

namespace Fairway

namespace Json

theorem ofString?_render {j : Json} (written : Written j) : ofString? j.render = some j := by
  rw [ofString?, toList_render written, parse_write written]

variable {α : Type} {toJson : α → Json} {ofJson? : Json → Option α}

/-- Values are read back from what is written for them, from text and from bytes alike. -/
structure Faithful (toJson : α → Json) (ofJson? : Json → Option α) : Prop where
  text : ∀ a, (ofString? (toJson a).render).bind ofJson? = some a
  bytes : ∀ a, (ofBytes? (toJson a).toBytes).bind ofJson? = some a
  /-- Whatever a value was read from, it is read again from what is then written for it. -/
  textAgain : ∀ s a, (ofString? s).bind ofJson? = some a → (ofString? (toJson a).render).bind ofJson? = some a
  bytesAgain : ∀ bs a, (ofBytes? bs).bind ofJson? = some a → (ofBytes? (toJson a).toBytes).bind ofJson? = some a

theorem Faithful.of_written (written : ∀ a, Written (toJson a)) (back : ∀ a, ofJson? (toJson a) = some a) :
    Faithful toJson ofJson? := by
  have text (a : α) : (ofString? (toJson a).render).bind ofJson? = some a := by
    rw [ofString?_render (written a), Option.bind_some, back]
  have bytes (a : α) : (ofBytes? (toJson a).toBytes).bind ofJson? = some a := by
    rw [ofBytes?_toBytes (written a), Option.bind_some, back]
  exact ⟨text, bytes, fun _ a _ => text a, fun _ a _ => bytes a⟩

theorem Written.ofOption {f : α → Json} (each : ∀ a, Written (f a)) (value : Option α) :
    Written (ofOption f value) := by
  cases value with
  | none => exact .null
  | some a => exact each a

/-- An absent value is written as `null`, which nothing else is written as. -/
theorem asOption_ofOption {f : Json → Option α} {g : α → Json} (back : ∀ a, f (g a) = some a)
    (present : ∀ a, g a ≠ .null) (value : Option α) : asOption f (ofOption g value) = some value := by
  cases value with
  | none => rfl
  | some a => rw [ofOption, asOption, back, Option.map_some]; exact present a

end Json

namespace Instance

theorem written_toJson (i : Instance) : Json.Written i.toJson :=
  i.toJson_eq ▸ Json.written_named i.bare_stored fun _ listed => (mem_stored listed).2.written

theorem ofJson?_toJson (i : Instance) : ofJson? i.toJson = some i := by
  have claimed := i.ofClaim?_toBytes
  rwa [ofClaim?, Json.ofBytes?_toBytes i.written_toJson, Option.bind_some] at claimed

end Instance

namespace Record

theorem ofJson?_toJson (r : Record) : ofJson? r.toJson = some r := by
  have stored := r.ofBytes?_toBytes
  rwa [ofBytes?, toBytes, Json.ofBytes?_toBytes r.written_stored, Option.bind_some] at stored

/-- A registration read as part of a record is one that is also read by itself, in a document that has
more to say. -/
theorem registration_of_ofJson? {j : Json} {r : Record} (read : ofJson? j = some r) :
    Registration.ofJson? j = some r.registration := by
  unfold ofJson? at read
  split at read
  · split at read
    · obtain ⟨registration, found, rest⟩ := Option.bind_eq_some_iff.1 read
      rw [found]
      split at rest
      · obtain ⟨lease, _, same⟩ := Option.bind_eq_some_iff.1 rest
        cases same
        rfl
      · cases rest
    · cases read
  · cases read

theorem toJson_unleased (reg : Registration) : toJson ⟨reg, none⟩ = reg.toJson := by
  simp [toJson, Registration.toJson]

end Record

namespace Registration

theorem written_toJson (r : Registration) : Json.Written r.toJson :=
  Record.toJson_unleased r ▸ Record.written_stored ⟨r, none⟩

theorem ofJson?_toJson (r : Registration) : ofJson? r.toJson = some r :=
  Record.toJson_unleased r ▸ Record.registration_of_ofJson? (Record.ofJson?_toJson ⟨r, none⟩)

end Registration

namespace Attributes

/-- What attributes are stored as, field by field. -/
def stored (a : Attributes) : List (String × Json) :=
  [("weight", .ofOption .ofWeight a.weight), ("read_weight", .ofOption .ofWeight a.readWeight),
    ("write_weight", .ofOption .ofWeight a.writeWeight), ("group", .ofOption .ofText a.group),
    ("node", .ofOption .ofText a.node)]

theorem toJson_eq (a : Attributes) : a.toJson = .object (Json.named a.stored) := rfl

theorem mem_stored {a : Attributes} {f : String × Json} (listed : f ∈ a.stored) :
    f.1 ∈ ["weight", "read_weight", "write_weight", "group", "node"] ∧ Json.Written f.2 := by
  have weight := Json.Written.ofOption fun w => (Json.Scalar.weight w).written
  have text := Json.Written.ofOption fun s => (Json.Scalar.text s).written
  simp only [stored, List.mem_cons, List.not_mem_nil, or_false] at listed
  rcases listed with rfl | rfl | rfl | rfl | rfl <;> simp [weight, text]

theorem bare_stored (a : Attributes) : ∀ f ∈ a.stored, Json.Bare f.1 := by
  have bare : ["weight", "read_weight", "write_weight", "group", "node"].all
      (fun name => name.toList.all fun c => Json.escapeChar c == [c]) = true := rfl
  exact fun f listed => List.all_eq_true.1 bare f.1 (mem_stored listed).1

theorem written_toJson (a : Attributes) : Json.Written a.toJson :=
  a.toJson_eq ▸ Json.written_named a.bare_stored fun _ listed => (mem_stored listed).2

theorem ofJson?_toJson (a : Attributes) : ofJson? a.toJson = some a := by
  have weight := Json.asOption_ofOption Json.asWeight_ofWeight (fun _ => nofun)
  have text := Json.asOption_ofOption Json.asText_ofText (fun _ => nofun)
  rw [toJson_eq]
  simp only [ofJson?, Json.given_named a.bare_stored, List.mapM_cons, List.mapM_nil, Json.givenMember,
    Json.valuesOf_named]
  simp [stored, Json.Given.optional, weight, text]

end Attributes

namespace Address

/-- What an address is stored as, field by field. -/
def stored (a : Address) : List (String × Json) :=
  [("addr", .ofText a.addr), ("server_name", .ofText a.serverName), ("attributes", a.attributes.toJson)]

theorem toJson_eq (a : Address) : a.toJson = .object (Json.named a.stored) := rfl

theorem mem_stored {a : Address} {f : String × Json} (listed : f ∈ a.stored) :
    f.1 ∈ ["addr", "server_name", "attributes"] ∧ Json.Written f.2 := by
  have text := fun s => (Json.Scalar.text s).written
  simp only [stored, List.mem_cons, List.not_mem_nil, or_false] at listed
  rcases listed with rfl | rfl | rfl <;> simp [text, a.attributes.written_toJson]

theorem bare_stored (a : Address) : ∀ f ∈ a.stored, Json.Bare f.1 := by
  have bare : ["addr", "server_name", "attributes"].all
      (fun name => name.toList.all fun c => Json.escapeChar c == [c]) = true := rfl
  exact fun f listed => List.all_eq_true.1 bare f.1 (mem_stored listed).1

theorem written_toJson (a : Address) : Json.Written a.toJson :=
  a.toJson_eq ▸ Json.written_named a.bare_stored fun _ listed => (mem_stored listed).2

theorem ofJson?_toJson (a : Address) : ofJson? a.toJson = some a := by
  rw [toJson_eq]
  simp only [ofJson?, Json.given_named a.bare_stored, List.mapM_cons, List.mapM_nil, Json.givenMember,
    Json.valuesOf_named]
  simp [stored, Json.Given.required, Json.asText_ofText, a.attributes.ofJson?_toJson]

end Address

/-- How identities, registrations, addresses and records are stored. -/
structure StoredForms : Prop where
  identities : Json.Faithful Instance.toJson Instance.ofJson?
  registrations : Json.Faithful Registration.toJson Registration.ofJson?
  addresses : Json.Faithful Address.toJson Address.ofJson?
  records : Json.Faithful Record.toJson Record.ofJson?
  /-- A record, leased or not, can be read as the registration in it. -/
  inner : ∀ r : Record, (Json.ofString? r.toJson.render).bind Registration.ofJson? = some r.registration ∧
    (Json.ofBytes? r.toJson.toBytes).bind Registration.ofJson? = some r.registration
  /-- So can whatever else a record is read from. -/
  within : ∀ bs r, (Json.ofBytes? bs).bind Record.ofJson? = some r →
    (Json.ofBytes? bs).bind Registration.ofJson? = some r.registration
  /-- Without a lease a record is written as its registration. -/
  unleased : ∀ reg : Registration, (Record.toJson ⟨reg, none⟩).render = reg.toJson.render ∧
    (Record.toJson ⟨reg, none⟩).toBytes = reg.toJson.toBytes

theorem storedForms_faithful : StoredForms where
  identities := .of_written Instance.written_toJson Instance.ofJson?_toJson
  registrations := .of_written Registration.written_toJson Registration.ofJson?_toJson
  addresses := .of_written Address.written_toJson Address.ofJson?_toJson
  records := .of_written Record.written_stored Record.ofJson?_toJson
  inner r := by
    have read := Record.registration_of_ofJson? r.ofJson?_toJson
    rw [Json.ofString?_render r.written_stored, Json.ofBytes?_toBytes r.written_stored]
    exact ⟨read, read⟩
  within bs r read := by
    obtain ⟨j, document, read⟩ := Option.bind_eq_some_iff.1 read
    rw [document]
    exact Record.registration_of_ofJson? read
  unleased reg := by
    rw [Record.toJson_unleased]
    exact ⟨rfl, rfl⟩

/-- Another text than the one that is written: an array, with an escape that is not needed. -/
example : (Json.ofString? "[\"s\\u0076c\", \"a\", \"\", 3]").bind Registration.ofJson? =
    some { name := "svc", address := "a", weight := 3 } := by
  decide +kernel

end Fairway
