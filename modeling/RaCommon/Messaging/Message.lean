import RaCommon.Identity.Did
import RaCommon.Util.RandomUtil

set_option relaxedAutoImplicit false
set_option autoImplicit false

/-!
# Messages (`messaging/*_message.hpp`, `messaging/message_json.hpp`)

The four kinds of message an envelope carries. Each is written with its kind and, if there are
any, its error messages.

## Main definitions

* `RaCommon.Command` — the commands, with their names; another name is read as `Start`.
* `RaCommon.DocumentMessage`, `RaCommon.CommandMessage`, `RaCommon.EventMessage`,
  `RaCommon.TextMessage` — the kinds of message.
* `RaCommon.Message`, `RaCommon.messageFromJson` — a message of any kind, and its reader.

## Main results

* `RaCommon.Message.fromJson_toJson` — every message is read back, up to what happens to the
  public keys of a text message.
-/

namespace RaCommon

/-! ## Error messages -/

/-- `Message::WithErrors`. -/
def withErrors (errorMessages : List Str) (obj : Fields) : Fields :=
  obj.setIf (!errorMessages.isEmpty) (str "error_messages") (Json.ofStrings errorMessages)

/-- `Message::ErrorsFromJson`. -/
def errorsFromJson (data : Json) : Outcome (List Str) :=
  data.orDefault (str "error_messages") Json.getStrings []

/-- The members that are no error messages. -/
@[simp] lemma find_withErrors {key : Str} (h : key ≠ str "error_messages")
    (errorMessages : List Str) (obj : Fields) :
    (withErrors errorMessages obj).find key = obj.find key := by
  simp [withErrors, h]

/-- The error messages are read back. -/
lemma errorsFromJson_withErrors {errorMessages : List Str} {obj : Fields}
    (h : obj.find (str "error_messages") = none) :
    errorsFromJson (.object (withErrors errorMessages obj)) = .ok errorMessages := by
  rw [errorsFromJson, Json.orDefault_object, withErrors, Fields.find_setIf, h]
  cases errorMessages with
  | nil => rfl
  | cons e es => exact Json.getStrings_ofStrings (e :: es)

/-! ## Documents -/

/-- `kContent`. -/
def kContent : Str := str "CONTENT"

/-- `kEntity`. -/
def kEntity : Str := str "ENTITY"

/-- `kExceptions`. -/
def kExceptions : Str := str "EXCEPTIONS"

lemma kContent_ne_kExceptions : kContent ≠ kExceptions := by simp [kContent, kExceptions]

lemma kEntity_ne_kExceptions : kEntity ≠ kExceptions := by simp [kEntity, kExceptions]

/-- `DocumentMessage`. -/
structure DocumentMessage where
  data : List Json := [.object []]
  errorMessages : List Str := []

namespace DocumentMessage

/-- `DocumentMessage::ToJson`. -/
def toJson (m : DocumentMessage) : Json :=
  .object <| withErrors m.errorMessages <| Fields.of
    [(str "kind", .string (str "document")), (str "data", .array m.data)]

/-- `DocumentMessage::FromJson`. -/
def fromJson (json : Json) : Outcome DocumentMessage := do
  let data ← json.orDefault (str "data") Json.getArray [.object []]
  let errorMessages ← errorsFromJson json
  .ok { data, errorMessages }

/-- **A document is read back.** -/
@[simp] theorem fromJson_toJson (m : DocumentMessage) : fromJson m.toJson = .ok m := by
  simp [fromJson, toJson, errorsFromJson_withErrors]

/-! ### The primary bucket -/

/-- What `Primary` returns a reference to: the first bucket, or a new one. -/
def primary (m : DocumentMessage) : Json := m.data.headD (.object [])

/-- A change of `Primary()`. -/
def changePrimary (m : DocumentMessage) (change : Json → Outcome Json) :
    Outcome DocumentMessage := do
  .ok { m with data := (← change m.primary) :: m.data.tail }

/-- `Get`. -/
def get (m : DocumentMessage) (key : Str) : Outcome Json :=
  match m.data with
  | [] => .ok .null
  | bucket :: _ => if bucket.contains key then bucket.at key else .ok .null

/-- `Put`. -/
def put (m : DocumentMessage) (key : Str) (value : Json) : Outcome DocumentMessage :=
  m.changePrimary fun bucket => bucket.setMember key value

/-- The members of the primary bucket, if it is an object. -/
def members (m : DocumentMessage) : Fields :=
  match m.primary with
  | .object fields => fields
  | _ => []

/-- The primary bucket can be assigned to: it is missing, null or an object. -/
def Assignable (m : DocumentMessage) : Prop := m.primary.isNull = true ∨ m.primary.isObject = true

/-- What is got is a member, or null. -/
lemma get_eq (m : DocumentMessage) (key : Str) :
    m.get key = .ok ((m.members.find key).getD .null) := by
  obtain ⟨data, errorMessages⟩ := m
  cases data with
  | nil => rfl
  | cons bucket rest =>
    cases bucket with
    | object fields =>
      show (if (Fields.find fields key).isSome then Json.readAt key (Fields.find fields key)
        else .ok .null) = .ok ((Fields.find fields key).getD .null)
      cases Fields.find fields key with
      | none => rfl
      | some value => rfl
    | _ => rfl

/-- **An assignment to a member of the primary bucket**, where it can be assigned to. -/
theorem changePrimary_eq {m : DocumentMessage} (h : m.Assignable) {change : Json → Outcome Json}
    {key : Str} {value : Json} (hchange : change m.primary = m.primary.setMember key value) :
    ∃ m', m.changePrimary change = .ok m' ∧ m'.members = m.members.set key value ∧
      m'.Assignable := by
  have hnew : ∀ fields, m.primary.setMember key value = .ok (.object fields) →
      m.changePrimary change = .ok { m with data := .object fields :: m.data.tail } := by
    intro fields hset
    rw [changePrimary, hchange, hset]
    rfl
  rw [Assignable] at h
  rw [members]
  cases hprimary : m.primary with
  | null => exact ⟨_, hnew _ (by rw [hprimary]; rfl), rfl, .inr rfl⟩
  | object fields => exact ⟨_, hnew _ (by rw [hprimary]; rfl), rfl, .inr rfl⟩
  | _ => simp [hprimary, Json.isNull, Json.isObject] at h

/-- Any other assignment throws. -/
lemma changePrimary_of_not_assignable {m : DocumentMessage} (h : ¬ m.Assignable)
    {change : Json → Outcome Json} {key : Str} {value : Json}
    (hchange : change m.primary = m.primary.setMember key value) :
    ∃ fault, m.changePrimary change = .error fault := by
  rw [Assignable] at h
  rw [changePrimary, hchange]
  cases hprimary : m.primary with
  | null => simp [hprimary, Json.isNull] at h
  | object fields => simp [hprimary, Json.isObject] at h
  | _ => exact ⟨_, rfl⟩

end DocumentMessage

/-! ## Commands -/

/-- `Command`. -/
inductive Command where
  | start
  | shutdown
  | gracefullyShutdown
  | restart
  | pause
  | unpause
  | netState
  | report
  | registerStateChangeListener
  | unregisterStateChangeListener
  deriving DecidableEq, Repr

/-- `ToString(Command)`. -/
def Command.toStr : Command → Str
  | .start => str "Start"
  | .shutdown => str "Shutdown"
  | .gracefullyShutdown => str "GracefullyShutdown"
  | .restart => str "Restart"
  | .pause => str "Pause"
  | .unpause => str "Unpause"
  | .netState => str "NetState"
  | .report => str "Report"
  | .registerStateChangeListener => str "RegisterStateChangeListener"
  | .unregisterStateChangeListener => str "UnregisterStateChangeListener"

/-- `CommandFromString`. -/
def commandFromString (s : Str) : Command :=
  if s = str "Shutdown" then .shutdown
  else if s = str "GracefullyShutdown" then .gracefullyShutdown
  else if s = str "Restart" then .restart
  else if s = str "Pause" then .pause
  else if s = str "Unpause" then .unpause
  else if s = str "NetState" then .netState
  else if s = str "Report" then .report
  else if s = str "RegisterStateChangeListener" then .registerStateChangeListener
  else if s = str "UnregisterStateChangeListener" then .unregisterStateChangeListener
  else .start

@[simp] lemma commandFromString_toStr (c : Command) : commandFromString c.toStr = c := by
  cases c <;> simp [commandFromString, Command.toStr]

/-- `CommandMessage`. -/
structure CommandMessage where
  command : Option Command := none
  errorMessages : List Str := []

namespace CommandMessage

/-- `CommandMessage::ToJson`. -/
def toJson (m : CommandMessage) : Json :=
  .object <| withErrors m.errorMessages <|
    (Fields.of [(str "kind", .string (str "command"))]).setOpt (str "command") m.command
      fun c => .string c.toStr

/-- `CommandMessage::FromJson`. -/
def fromJson (json : Json) : Outcome CommandMessage := do
  let command ← json.optional (str "command")
    fun v => do .ok (commandFromString (← v.getString))
  let errorMessages ← errorsFromJson json
  .ok { command, errorMessages }

/-- **A command is read back.** -/
@[simp] theorem fromJson_toJson (m : CommandMessage) : fromJson m.toJson = .ok m := by
  have hcommand : Json.readOption (fun v => do .ok (commandFromString (← v.getString)))
      (m.command.map fun c => .string c.toStr) = .ok (m.command.map id) :=
    Json.readOption_map fun c _ => by simp
  simp [fromJson, toJson, errorsFromJson_withErrors, hcommand]

end CommandMessage

/-! ## Events -/

/-- `EventMessage`. -/
structure EventMessage where
  id : Str
  eventType : Str
  name : Option Str := none
  messageValue : Json := .null
  errorMessages : List Str := []

namespace EventMessage

/-- The constructor of `EventMessage`. -/
def new (d : Draw) (eventType : Str) (id : Option Str) : EventMessage :=
  { id := id.getD (randomUuidLike d), eventType }

/-- `EventMessage::ToJson`. -/
def toJson (m : EventMessage) : Json :=
  .object <| withErrors m.errorMessages <| (Fields.of
      [(str "kind", .string (str "event")), (str "id", .string m.id),
        (str "event_type", .string m.eventType)]
    |>.setOpt (str "name") m.name .string
    |>.setIf (!m.messageValue.isNull) (str "message") m.messageValue)

/-- `EventMessage::FromJson`. -/
def fromJson (d : Draw) (json : Json) : Outcome EventMessage := do
  let eventType ← (← json.at (str "event_type")).getString
  let id ← json.optional (str "id") Json.getString
  let name ← json.optional (str "name") Json.getString
  let messageValue ← json.orDefault (str "message") .ok .null
  let errorMessages ← errorsFromJson json
  .ok { new d eventType id with name, messageValue, errorMessages }

/-- **An event is read back.** -/
@[simp] theorem fromJson_toJson (d : Draw) (m : EventMessage) : fromJson d m.toJson = .ok m := by
  have hmessage : Json.readOr .ok .null
      (if m.messageValue.isNull = false then some m.messageValue else none) =
        .ok m.messageValue := by
    cases m.messageValue <;> rfl
  simp [fromJson, toJson, errorsFromJson_withErrors, hmessage, new]

end EventMessage

/-! ## Texts -/

/-- `TextMessage`. -/
structure TextMessage where
  «to» : Option Did := none
  «from» : Option Did := none
  text : Option Str := none
  errorMessages : List Str := []

namespace TextMessage

/-- `TextMessage::ToJson`. -/
def toJson (m : TextMessage) : Json :=
  .object <| withErrors m.errorMessages <| (Fields.of [(str "kind", .string (str "text"))]
    |>.setOpt (str "to") m.«to» Did.toJson
    |>.setOpt (str "from") m.from Did.toJson
    |>.setOpt (str "text") m.text .string)

/-- `TextMessage::FromJson`. -/
def fromJson (json : Json) : Outcome TextMessage := do
  let «to» ← json.optional (str "to") Did.fromJson
  let «from» ← json.optional (str "from") Did.fromJson
  let text ← json.optional (str "text") Json.getString
  let errorMessages ← errorsFromJson json
  .ok { «to», «from», text, errorMessages }

/-- The public keys inside the message. -/
def publicKeys (m : TextMessage) : List PublicKey :=
  (m.«to».toList ++ m.from.toList).map (·.publicKey)

/-- What the message becomes when it is written and read. -/
def reloaded (m : TextMessage) : TextMessage :=
  { m with «to» := m.«to».map Did.reloaded, «from» := m.from.map Did.reloaded }

/-- With attributes that are objects nothing changes. -/
theorem reloaded_eq {m : TextMessage} (h : ∀ pk ∈ m.publicKeys, pk.attributes.isObject = true) :
    m.reloaded = m := by
  rw [publicKeys, List.map_append] at h
  obtain ⟨hto, hfrom⟩ := List.forall_mem_append.mp h
  rw [reloaded, Did.map_reloaded_eq hto, Did.map_reloaded_eq hfrom]

/-- **A text is read back**, up to what happens to its public keys. -/
@[simp] theorem fromJson_toJson (m : TextMessage) : fromJson m.toJson = .ok m.reloaded := by
  simp [fromJson, toJson, reloaded, errorsFromJson_withErrors]

end TextMessage

/-! ## Messages of any kind -/

/-- `Message`: one constructor for each class. -/
inductive Message where
  | document (m : DocumentMessage)
  | command (m : CommandMessage)
  | event (m : EventMessage)
  | text (m : TextMessage)

/-- `Message::ToJson`. -/
def Message.toJson : Message → Json
  | .document m => m.toJson
  | .command m => m.toJson
  | .event m => m.toJson
  | .text m => m.toJson

/-- `MessageFromJson`. -/
def messageFromJson (d : Draw) (data : Json) : Outcome Message := do
  let kind ← (← data.at (str "kind")).getString
  if kind = str "document" then .ok (.document (← DocumentMessage.fromJson data))
  else if kind = str "command" then .ok (.command (← CommandMessage.fromJson data))
  else if kind = str "event" then .ok (.event (← EventMessage.fromJson d data))
  else if kind = str "text" then .ok (.text (← TextMessage.fromJson data))
  else .error (.runtimeError (str "unknown message kind: " ++ kind))

namespace Message

/-- The public keys inside a message. -/
def publicKeys : Message → List PublicKey
  | .text m => m.publicKeys
  | _ => []

/-- What a message becomes when it is written and read. -/
def reloaded : Message → Message
  | .text m => .text m.reloaded
  | m => m

/-- With attributes that are objects nothing changes. -/
theorem reloaded_eq {m : Message} (h : ∀ pk ∈ m.publicKeys, pk.attributes.isObject = true) :
    m.reloaded = m := by
  cases m with
  | text m => rw [reloaded, TextMessage.reloaded_eq h]
  | document m => rfl
  | command m => rfl
  | event m => rfl

/-- **A message is read back**, up to what happens to its public keys. -/
@[simp] theorem fromJson_toJson (d : Draw) (m : Message) :
    messageFromJson d m.toJson = .ok m.reloaded := by
  cases m with
  | document m =>
    rw [messageFromJson, toJson, DocumentMessage.fromJson_toJson]
    simp [DocumentMessage.toJson, reloaded]
  | command m =>
    rw [messageFromJson, toJson, CommandMessage.fromJson_toJson]
    simp [CommandMessage.toJson, reloaded]
  | event m =>
    rw [messageFromJson, toJson, EventMessage.fromJson_toJson]
    simp [EventMessage.toJson, reloaded]
  | text m =>
    rw [messageFromJson, toJson, TextMessage.fromJson_toJson]
    simp [TextMessage.toJson, reloaded]

/-- An optional message that was written is read back. -/
@[simp] lemma readOption_message (d : Draw) (o : Option Message) :
    Json.readOption (messageFromJson d) (o.map toJson) = .ok (o.map reloaded) :=
  Json.readOption_map fun m _ => fromJson_toJson d m

/-- With attributes that are objects nothing changes in an optional message. -/
lemma map_reloaded_eq {o : Option Message}
    (h : ∀ pk ∈ o.toList.flatMap publicKeys, pk.attributes.isObject = true) :
    o.map reloaded = o := by
  cases o with
  | none => rfl
  | some m => rw [Option.map_some, reloaded_eq (by simpa using h)]

end Message

end RaCommon
