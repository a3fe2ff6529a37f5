import RaCommon.Envelope.Multipart
import RaCommon.Messaging.Message
import RaCommon.Route.DynamicRoutingSlip

set_option relaxedAutoImplicit false
set_option autoImplicit false

/-!
# Envelopes (`envelope.hpp`, `service/service_status.hpp`)

An envelope wraps a message with its headers, its routing slip and the current route.

## Main definitions

* `RaCommon.ServiceLevel`, `RaCommon.EnvelopeAction` — enumerations with their names.
* `RaCommon.Envelope` — an envelope, with `new`, `toJson` and `fromJson`.
* `RaCommon.Envelope.publicKeys` — all public keys inside an envelope.

## Main results

* `RaCommon.Envelope.fromJson_toJson` — every envelope is read back, up to what
  happens to its public keys and to the body of its multipart.
* `RaCommon.Envelope.json_round_trip` — where the attributes of all public keys are objects and
  nothing was appended to the multipart, the envelope is read back exactly.
* `RaCommon.Envelope.finish_reloaded_iff` — when an envelope keeps the text of its multipart.
-/

namespace RaCommon

/-! ## Enumerations -/

/-- `ServiceLevel`. -/
inductive ServiceLevel where
  | atMostOnce
  | atLeastOnce
  | exactlyOnce
  deriving DecidableEq, Repr

/-- `ToString(ServiceLevel)`. -/
def ServiceLevel.toStr : ServiceLevel → Str
  | .atMostOnce => str "AtMostOnce"
  | .atLeastOnce => str "AtLeastOnce"
  | .exactlyOnce => str "ExactlyOnce"

/-- `ServiceLevelFromString`. -/
def serviceLevelFromString (s : Str) : ServiceLevel :=
  if s = str "AtMostOnce" then .atMostOnce
  else if s = str "ExactlyOnce" then .exactlyOnce
  else .atLeastOnce

@[simp] lemma serviceLevelFromString_toStr (l : ServiceLevel) :
    serviceLevelFromString l.toStr = l := by
  cases l <;> simp [serviceLevelFromString, ServiceLevel.toStr]

/-- `EnvelopeAction`. -/
inductive EnvelopeAction where
  | post
  | put
  | delete
  | get
  deriving DecidableEq, Repr

/-- `ToString(EnvelopeAction)`. -/
def EnvelopeAction.toStr : EnvelopeAction → Str
  | .post => str "Post"
  | .put => str "Put"
  | .delete => str "Delete"
  | .get => str "Get"

/-- `EnvelopeActionFromString`. -/
def envelopeActionFromString (s : Str) : EnvelopeAction :=
  if s = str "Put" then .put
  else if s = str "Delete" then .delete
  else if s = str "Get" then .get
  else .post

@[simp] lemma envelopeActionFromString_toStr (a : EnvelopeAction) :
    envelopeActionFromString a.toStr = a := by
  cases a <;> simp [envelopeActionFromString, EnvelopeAction.toStr]

/-- An optional action that was written is read back. -/
@[simp] lemma readOption_action (o : Option EnvelopeAction) :
    Json.readOption (fun v => do .ok (envelopeActionFromString (← v.getString)))
      (o.map fun a => .string a.toStr) = .ok o := by
  have h : Json.readOption (fun v => do .ok (envelopeActionFromString (← v.getString)))
      (o.map fun a => .string a.toStr) = .ok (o.map id) :=
    Json.readOption_map fun a _ => by simp
  rwa [Option.map_id, id_eq] at h

/-! ## Envelopes -/

/-- `Envelope`. -/
structure Envelope where
  id : Str
  dynamicRoutingSlip : DynamicRoutingSlip
  route : Option Route := none
  markers : List Str := []
  did : Did := {}
  client : Option Str := none
  replyToClient : Bool := false
  clientReplyAction : Option Str := none
  url : Option Str := none
  multipart : Option Multipart := none
  action : Option EnvelopeAction := none
  commandPath : Option Str := none
  headers : Json := .object []
  message : Option Message := none
  sensitivity : Int32 := 1
  delayed : Bool := false
  minDelay : Int32 := 0
  maxDelay : Int32 := 0
  copy : Bool := false
  maxCopies : Int32 := 0
  minCopies : Int32 := 0
  serviceLevel : ServiceLevel := .atLeastOnce

namespace Envelope

/-- The constructor of `Envelope`. -/
def new (draws : Draws) (id : Option Str) (message : Option Message) : Envelope :=
  { id := id.getD (randomUuidLike draws.here)
    dynamicRoutingSlip := .new (draws.nested 0).here
    message }

/-- `Envelope::ToJson`. -/
def toJson (e : Envelope) : Json :=
  .object <| Fields.of
      [(str "id", .string e.id),
        (str "dynamic_routing_slip", e.dynamicRoutingSlip.toJson),
        (str "markers", Json.ofStrings e.markers),
        (str "did", e.did.toJson),
        (str "reply_to_client", .boolean e.replyToClient),
        (str "headers", e.headers),
        (str "sensitivity", Json.ofInt e.sensitivity),
        (str "delayed", .boolean e.delayed),
        (str "min_delay", Json.ofInt e.minDelay),
        (str "max_delay", Json.ofInt e.maxDelay),
        (str "copy", .boolean e.copy),
        (str "max_copies", Json.ofInt e.maxCopies),
        (str "min_copies", Json.ofInt e.minCopies),
        (str "service_level", .string e.serviceLevel.toStr)]
    |>.setOpt (str "route") e.route Route.toJson
    |>.setOpt (str "client") e.client .string
    |>.setOpt (str "client_reply_action") e.clientReplyAction .string
    |>.setOpt (str "url") e.url .string
    |>.setOpt (str "multipart") e.multipart Multipart.toJson
    |>.setOpt (str "action") e.action (fun a => .string a.toStr)
    |>.setOpt (str "command_path") e.commandPath .string
    |>.setOpt (str "message") e.message Message.toJson

/-- `Envelope::FromJson`. -/
def fromJson (draws : Draws) (data : Json) : Outcome Envelope := do
  let id ← data.optional (str "id") Json.getString
  let env := new (draws.nested 0) id none
  let dynamicRoutingSlip ← data.orDefault (str "dynamic_routing_slip")
    (slipFromJson (draws.nested 1)) env.dynamicRoutingSlip
  let route ← data.optional (str "route") (routeFromJson (draws.nested 2))
  let markers ← data.orDefault (str "markers") Json.getStrings env.markers
  let did ← data.orDefault (str "did") Did.fromJson env.did
  let client ← data.optional (str "client") Json.getString
  let replyToClient ← data.value (str "reply_to_client") Json.getBool false
  let clientReplyAction ← data.optional (str "client_reply_action") Json.getString
  let url ← data.optional (str "url") Json.getString
  let multipart ← data.optional (str "multipart") Multipart.fromJson
  let action ← data.optional (str "action")
    fun v => do .ok (envelopeActionFromString (← v.getString))
  let commandPath ← data.optional (str "command_path") Json.getString
  let headers ← data.orDefault (str "headers") .ok env.headers
  let message ← data.optional (str "message") (messageFromJson draws.here)
  let sensitivity ← data.value (str "sensitivity") Json.getInt 1
  let delayed ← data.value (str "delayed") Json.getBool false
  let minDelay ← data.value (str "min_delay") Json.getInt 0
  let maxDelay ← data.value (str "max_delay") Json.getInt 0
  let copy ← data.value (str "copy") Json.getBool false
  let maxCopies ← data.value (str "max_copies") Json.getInt 0
  let minCopies ← data.value (str "min_copies") Json.getInt 0
  let serviceLevel ← data.orDefault (str "service_level")
    (fun v => do .ok (serviceLevelFromString (← v.getString))) .atLeastOnce
  .ok { id := env.id, dynamicRoutingSlip, route, markers, did, client, replyToClient,
        clientReplyAction, url, multipart, action, commandPath, headers, message, sensitivity,
        delayed, minDelay, maxDelay, copy, maxCopies, minCopies, serviceLevel }

/-! ## Reading what was written -/

/-- All public keys inside an envelope. -/
def publicKeys (e : Envelope) : List PublicKey :=
  e.dynamicRoutingSlip.publicKeys ++ e.route.toList.flatMap Route.publicKeys ++
    [e.did.publicKey] ++ e.message.toList.flatMap Message.publicKeys

/-- What an envelope becomes when it is written and read. -/
def reloaded (e : Envelope) : Envelope :=
  { e with
    dynamicRoutingSlip := e.dynamicRoutingSlip.reloaded
    route := e.route.map Route.reloaded
    did := e.did.reloaded
    multipart := e.multipart.map Multipart.reloaded
    message := e.message.map Message.reloaded }

/-- **Every envelope is read back**, up to what happens to its public keys and to the body of its
multipart.

**Proof sketch.** The member that each field is read from is the one the field was written to;
every member's reader inverts its writer, and a missing member is read as the value for which
nothing is written. -/
theorem fromJson_toJson (draws : Draws) (e : Envelope) :
    fromJson draws e.toJson = .ok e.reloaded := by
  simp [fromJson, toJson, new, reloaded]

/-- **An envelope is read back exactly**, in every field, where the attributes of all public keys
inside it are objects and nothing was appended to the body of its multipart. -/
theorem json_round_trip (draws : Draws) (e : Envelope)
    (hattributes : ∀ pk ∈ e.publicKeys, pk.attributes.isObject = true)
    (hbody : ∀ m, e.multipart = some m → m.body = []) :
    fromJson draws e.toJson = .ok e := by
  rw [publicKeys] at hattributes
  obtain ⟨hrest, hmessage⟩ := List.forall_mem_append.mp hattributes
  obtain ⟨hrest, hdid⟩ := List.forall_mem_append.mp hrest
  obtain ⟨hslip, hroute⟩ := List.forall_mem_append.mp hrest
  rw [fromJson_toJson, reloaded, e.dynamicRoutingSlip.reloaded_eq hslip,
    Route.map_reloaded_eq hroute, Did.reloaded_eq (hdid _ (List.mem_singleton_self _)),
    Multipart.map_reloaded_eq hbody, Message.map_reloaded_eq hmessage]

/-- An envelope with a text from one identity to another, between two hops: behind it a relayed
route, ahead of it a slip inside its slip. -/
def inTransit : Envelope :=
  { id := str "e-1"
    dynamicRoutingSlip :=
      { «meta» := { routeId := 7 }
        routes := [.routingSlip
          ⟨{ routeId := 7 }, [.simple ⟨{ service := some (str "Mail"), routeId := 8 }⟩], none⟩]
        current := some (.relayedExternal { base := { «meta» := { routeId := 7 } } }) }
    route := some (.relayedExternal
      { base := { «meta» := { routeId := 7 }, origination := some {} }, toPeer := some {} })
    message := some (.text { «to» := some {}, «from» := some {}, errorMessages := [str "late"] })
    multipart := some { boundary := str "b" } }

/-- `inTransit` is read back. -/
theorem json_round_trip_inTransit :
    fromJson (fun _ => ⟨⟨List.replicate 16 0, rfl⟩, 0⟩) inTransit.toJson = .ok inTransit := by
  apply json_round_trip
  · intro pk hpk
    have hkeys : inTransit.publicKeys = List.replicate 5 {} := rfl
    rw [hkeys] at hpk
    rw [List.eq_of_mem_replicate hpk]
    rfl
  · intro m hm
    cases hm
    rfl

/-! ## The body of the multipart -/

/-- **When an envelope keeps the text of its multipart**: what is read back of an envelope after
some calls on its multipart has a multipart with the same `Finish` text exactly when nothing was in
the body and each call appended an empty text.

**Proof sketch.** The multipart is read back without its body, and `Finish` appends the same
closing delimiter to both bodies. -/
theorem finish_reloaded_iff (draws : Draws) (e : Envelope) (m : Multipart)
    (calls : List Multipart.Call) :
    (∃ e' m', fromJson draws { e with multipart := some (m.run calls) }.toJson = .ok e' ∧
      e'.multipart = some m' ∧ m'.finish = (m.run calls).finish) ↔
      m.body = [] ∧ ∀ call ∈ calls, call = .appendRaw [] := by
  rw [← Multipart.body_run_eq_nil]
  have hread := fromJson_toJson draws { e with multipart := some (m.run calls) }
  have hfinish :
      (m.run calls).reloaded.finish = (m.run calls).finish ↔ (m.run calls).body = [] := by
    simp [Multipart.finish, Multipart.reloaded]
  constructor
  · rintro ⟨e', m', he', hm', heq⟩
    obtain rfl := Except.ok.inj (hread.symm.trans he')
    obtain rfl := Option.some.inj hm'
    exact hfinish.mp heq
  · intro hbody
    exact ⟨_, _, hread, rfl, hfinish.mpr hbody⟩

/-- An envelope loses a form field. -/
theorem finish_reloaded_form_field :
    ¬ ∀ (draws : Draws) (e : Envelope) (m : Multipart) (calls : List Multipart.Call),
      ∃ e' m', fromJson draws { e with multipart := some (m.run calls) }.toJson = .ok e' ∧
        e'.multipart = some m' ∧ m'.finish = (m.run calls).finish := by
  intro hall
  obtain ⟨e', m', he', hm', heq⟩ := hall (fun _ => ⟨⟨List.replicate 16 0, rfl⟩, 0⟩) inTransit
    { boundary := str "b" } [.addFormField (str "name") (str "value")]
  rw [fromJson_toJson] at he'
  obtain rfl := Except.ok.inj he'
  obtain rfl := Option.some.inj hm'
  have hlength := congrArg List.length heq
  revert hlength
  decide

/-! ## Which objects are rejected -/

/-- The faults with which the readers of an envelope's members end, in the order in which `FromJson`
reads them; that of the message is given. -/
def memberFaults (draws : Draws) (data : Json) (message : Option Fault) : List (Option Fault) :=
  [data.rejection (str "id") Json.getString,
    data.rejection (str "dynamic_routing_slip") (slipFromJson (draws.nested 1)),
    data.rejection (str "route") (routeFromJson (draws.nested 2)),
    data.rejection (str "markers") Json.getStrings,
    data.rejection (str "did") Did.fromJson,
    data.rejection (str "client") Json.getString,
    data.rejection (str "reply_to_client") Json.getBool,
    data.rejection (str "client_reply_action") Json.getString,
    data.rejection (str "url") Json.getString,
    data.rejection (str "multipart") Multipart.fromJson,
    data.rejection (str "action") Json.getString,
    data.rejection (str "command_path") Json.getString,
    message,
    data.rejection (str "sensitivity") Json.getInt,
    data.rejection (str "delayed") Json.getBool,
    data.rejection (str "min_delay") Json.getInt,
    data.rejection (str "max_delay") Json.getInt,
    data.rejection (str "copy") Json.getBool,
    data.rejection (str "max_copies") Json.getInt,
    data.rejection (str "min_copies") Json.getInt,
    data.rejection (str "service_level") Json.getString]

/-- The first of the members' faults: that of the first member that cannot be read. -/
def firstFault (draws : Draws) (data : Json) (message : Option Fault) : Option Fault :=
  (memberFaults draws data message).findSome? fun fault => fault

/-- **Which objects are rejected**: reading an envelope ends with the fault of the first member that
cannot be read. -/
theorem fault_fromJson (draws : Draws) (m : Fields) :
    (fromJson draws (.object m)).fault = firstFault draws (.object m)
      ((Json.object m).rejection (str "message") (messageFromJson draws.here)) := by
  have hcons : ∀ (o : Option Fault) (l : List (Option Fault)),
      ((o :: l).findSome? fun fault => fault) = o.or (l.findSome? fun fault => fault) := by
    intro o l
    cases o <;> rfl
  have haction := Json.rejection_map (.object m) (str "action") Json.getString
    envelopeActionFromString
  have hlevel := Json.rejection_map (.object m) (str "service_level") Json.getString
    serviceLevelFromString
  simp only [firstFault, memberFaults, hcons, ← haction, ← hlevel]
  rw [fromJson]
  refine Json.fault_optional m _ fun _ => Json.fault_orDefault m _ fun _ =>
    Json.fault_optional m _ fun _ => Json.fault_orDefault m _ fun _ =>
    Json.fault_orDefault m _ fun _ => Json.fault_optional m _ fun _ => Json.fault_value m _ fun _ =>
    Json.fault_optional m _ fun _ => Json.fault_optional m _ fun _ =>
    Json.fault_optional m _ fun _ => Json.fault_optional m _ fun _ =>
    Json.fault_optional m _ fun _ => ?_
  rw [Json.fault_orDefault m _ fun _ => Json.fault_optional m _ fun _ => Json.fault_value m _
    fun _ => Json.fault_value m _ fun _ => Json.fault_value m _ fun _ => Json.fault_value m _
    fun _ => Json.fault_value m _ fun _ => Json.fault_value m _ fun _ => Json.fault_value m _
    fun _ => Json.fault_orDefault m _ fun _ => Outcome.fault_ok _, Json.rejection_ok]
  rfl

/-- The message of an envelope that was read. -/
lemma message_of_fromJson {draws : Draws} {m : Fields} {e : Envelope}
    (h : fromJson draws (.object m) = .ok e) :
    Json.readOption (messageFromJson draws.here) (m.find (str "message")) = .ok e.message := by
  simp only [fromJson, Outcome.bind_eq_ok] at h
  obtain ⟨_, -, _, -, _, -, _, -, _, -, _, -, _, -, _, -, _, -, _, -, _, -, _, -, _, -, message,
    hmessage, _, -, _, -, _, -, _, -, _, -, _, -, _, -, _, -, heq⟩ := h
  cases heq
  rwa [Json.optional_object] at hmessage

end Envelope

end RaCommon
