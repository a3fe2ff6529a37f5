import RaCommon.Service.ServiceCore

set_option relaxedAutoImplicit false
set_option autoImplicit false

/-!
# Message-driven services (`service/service.hpp`)

`Service::Handle` passes an envelope to one of four handlers by the kind of its message, and the
handler of commands calls the lifecycle functions of the service.

## Main definitions

* `RaCommon.LifecycleCall`, `RaCommon.Service` — a service by what its virtual functions do.
* `RaCommon.Service.handleCommand`, `RaCommon.Service.handle` — the functions of `Service`, with the
  lifecycle functions they call.

## Main results

* `RaCommon.commandFromString_of_unknown` — a name that is no command's is read as `Start`.
* `RaCommon.Service.unknown_command_iff` — when an unrecognised command does not start a service.
-/

namespace RaCommon

/-- A call of a lifecycle function of a service. -/
inductive LifecycleCall where
  | start (config : List (Str × Str))
  | shutdown
  | pause
  | unpause
  | restart
  | gracefulShutdown
  deriving DecidableEq, Repr

/-- `Service`: what its virtual functions do. `HandleCommand` is the one of the base class. -/
structure Service where
  core : ServiceCore
  lifecycle : LifecycleCall → Outcome Bool
  handleDocument : Envelope → List LifecycleCall × Outcome Envelope := fun e => ([], .ok e)
  handleEvent : Envelope → List LifecycleCall × Outcome Envelope := fun e => ([], .ok e)
  handleHeaders : Envelope → List LifecycleCall × Outcome Envelope := fun e => ([], .ok e)

/-- `Envelope::SetHeader`. -/
def Envelope.setHeader (e : Envelope) (name : Str) (value : Json) : Outcome Envelope := do
  .ok { e with headers := ← e.headers.setMember name value }

namespace Service

/-- A lifecycle function is called and its result dropped. -/
def invoke (service : Service) (e : Envelope) (call : LifecycleCall) :
    List LifecycleCall × Outcome Envelope :=
  ([call], do let _ ← service.lifecycle call; .ok e)

/-- `Service::HandleCommand`: the lifecycle functions it calls, and the envelope. -/
def handleCommand (service : Service) (e : Envelope) : List LifecycleCall × Outcome Envelope :=
  match e.message with
  | some (.command m) =>
    match m.command with
    | none => ([], .ok e)
    | some .start => service.invoke e (.start service.core.config)
    | some .pause => service.invoke e .pause
    | some .unpause => service.invoke e .unpause
    | some .restart => service.invoke e .restart
    | some .shutdown => service.invoke e .shutdown
    | some .gracefullyShutdown => service.invoke e .gracefulShutdown
    | some .report => ([], e.setHeader (str "result") service.core.report.toJson)
    | some .netState | some .registerStateChangeListener | some .unregisterStateChangeListener =>
      ([], .ok e)
  | _ => ([], .ok e)

/-- `Service::Handle`. -/
def handle (service : Service) (e : Envelope) : List LifecycleCall × Outcome Envelope :=
  match e.message with
  | some (.document _) => service.handleDocument e
  | some (.event _) => service.handleEvent e
  | some (.command _) => service.handleCommand e
  | _ => service.handleHeaders e

end Service

/-! ## Unrecognised commands -/

/-- A name that is no command's is read as `Start`. -/
theorem commandFromString_of_unknown {s : Str} (h : ∀ c : Command, s ≠ c.toStr) :
    commandFromString s = .start := by
  rw [commandFromString]
  exact (if_neg (h .shutdown)).trans <| (if_neg (h .gracefullyShutdown)).trans <|
    (if_neg (h .restart)).trans <| (if_neg (h .pause)).trans <| (if_neg (h .unpause)).trans <|
    (if_neg (h .netState)).trans <| (if_neg (h .report)).trans <|
    (if_neg (h .registerStateChangeListener)).trans <|
    if_neg (h .unregisterStateChangeListener)

/-- A message with an unrecognised command is read as one with `Start`, if its error messages are
readable. -/
lemma messageFromJson_of_unknown (d : Draw) {data : Json} {s : Str}
    (hkind : data.find? (str "kind") = some (.string (str "command")))
    (hcommand : data.find? (str "command") = some (.string s)) (hs : ∀ c : Command, s ≠ c.toStr) :
    messageFromJson d data = (do
      let errorMessages ← errorsFromJson data
      .ok (.command { command := some .start, errorMessages })) := by
  cases data with
  | object m =>
    rw [Json.find?_object] at hkind hcommand
    simp [messageFromJson, CommandMessage.fromJson, hkind, hcommand,
      commandFromString_of_unknown hs]
  | _ => exact absurd hkind (by simp [Json.find?])

namespace Service

/-- Reading an envelope throws, or gives one that the service handles without a call of a lifecycle
function. -/
def LeftAlone (service : Service) (draws : Draws) (data : Json) : Prop :=
  (∃ f : Fault, f.IsException ∧ Envelope.fromJson draws data = .error f) ∨
    ∃ e, Envelope.fromJson draws data = .ok e ∧ (service.handle e).1 = []

/-- An envelope with an unrecognised command starts the service. -/
lemma handle_of_unknown (service : Service) {draws : Draws} {data msg : Json} {s : Str}
    (hmsg : data.find? (str "message") = some msg)
    (hkind : msg.find? (str "kind") = some (.string (str "command")))
    (hcommand : msg.find? (str "command") = some (.string s)) (hs : ∀ c : Command, s ≠ c.toStr)
    {e : Envelope} (he : Envelope.fromJson draws data = .ok e) :
    (service.handle e).1 = [.start service.core.config] := by
  cases data with
  | object m =>
    have hloaded := Envelope.message_of_fromJson he
    rw [← Json.find?_object, hmsg, Json.readOption_some,
      messageFromJson_of_unknown draws.here hkind hcommand hs] at hloaded
    obtain ⟨message, hmessage, heq⟩ := Outcome.bind_eq_ok.mp hloaded
    obtain ⟨errorMessages, -, hcommand⟩ := Outcome.bind_eq_ok.mp hmessage
    rw [Except.ok.injEq] at heq hcommand
    rw [handle, ← heq, ← hcommand]
    dsimp only
    rw [handleCommand, ← heq, ← hcommand]
    rfl
  | _ => exact absurd hmsg (by simp [Json.find?])

/-- A message with an unrecognised command is rejected with its error messages. -/
lemma rejection_of_unknown (d : Draw) {data msg : Json} {s : Str}
    (hmsg : data.find? (str "message") = some msg)
    (hkind : msg.find? (str "kind") = some (.string (str "command")))
    (hcommand : msg.find? (str "command") = some (.string s)) (hs : ∀ c : Command, s ≠ c.toStr) :
    data.rejection (str "message") (messageFromJson d) =
      msg.rejection (str "error_messages") Json.getStrings := by
  rw [Json.rejection, hmsg, Option.bind_some, messageFromJson_of_unknown d hkind hcommand hs]
  cases msg with
  | object m => exact (Json.fault_orDefault m _ fun _ => Outcome.fault_ok _).trans (Option.or_none)
  | _ => exact absurd hkind (by simp [Json.find?])

/-- **When an unrecognised command does not become a lifecycle action**: exactly when the first
other member of the envelope that cannot be read, in the order of `FromJson`, is rejected with an
exception. In all other cases the service is started, or the behaviour is undefined. -/
theorem unknown_command_iff (service : Service) (draws : Draws) (data msg : Json) (s : Str)
    (hmsg : data.find? (str "message") = some msg)
    (hkind : msg.find? (str "kind") = some (.string (str "command")))
    (hcommand : msg.find? (str "command") = some (.string s)) (hs : ∀ c : Command, s ≠ c.toStr) :
    service.LeftAlone draws data ↔ ∃ f : Fault, f.IsException ∧
      Envelope.firstFault draws data (msg.rejection (str "error_messages") Json.getStrings) =
        some f := by
  have hfault : (Envelope.fromJson draws data).fault = Envelope.firstFault draws data
      (msg.rejection (str "error_messages") Json.getStrings) := by
    rw [← rejection_of_unknown draws.here hmsg hkind hcommand hs]
    cases data with
    | object m => exact Envelope.fault_fromJson draws m
    | _ => exact absurd hmsg (by simp [Json.find?])
  rw [← hfault, LeftAlone]
  constructor
  · rintro (⟨f, hf, herror⟩ | ⟨e, he, hnone⟩)
    · exact ⟨f, hf, by rw [herror, Outcome.fault_error]⟩
    · rw [handle_of_unknown service hmsg hkind hcommand hs he] at hnone
      exact absurd hnone (List.cons_ne_nil _ _)
  · rintro ⟨f, hf, hfirst⟩
    cases hread : Envelope.fromJson draws data with
    | ok e =>
      rw [hread] at hfirst
      cases hfirst
    | error f' =>
      rw [hread] at hfirst
      obtain rfl := Option.some.inj hfirst
      exact .inl ⟨f', hf, rfl⟩

/-- A misspelt command, and its error messages are a number: there is no envelope. -/
theorem unknown_command_iff_numbers :
    let msg : Json := .object [(str "command", .string (str "Strat")),
      (str "error_messages", .numberInteger 7), (str "kind", .string (str "command"))]
    LeftAlone { core := ServiceCore.hosted, lifecycle := fun _ => .ok true }
      (fun _ => ⟨⟨List.replicate 16 0, rfl⟩, 0⟩) (.object [(str "message", msg)]) := by
  intro msg
  refine (unknown_command_iff _ _ _ msg (str "Strat") rfl rfl rfl ?_).mpr
    ⟨Json.typeError (str "array") (.numberInteger 7), ⟨by simp [Json.typeError], by
      simp [Json.typeError]⟩, rfl⟩
  intro c
  cases c <;> simp [Command.toStr]

/-- A command of a newer version, `Stop`, starts the service. -/
theorem handle_stop :
    let msg : Json := .object [(str "command", .string (str "Stop")),
      (str "kind", .string (str "command"))]
    (∀ c : Command, str "Stop" ≠ c.toStr) ∧
      ∃ e, Envelope.fromJson (fun _ => ⟨⟨List.replicate 16 0, rfl⟩, 0⟩)
        (.object [(str "message", msg)]) = .ok e ∧
        (handle { core := ServiceCore.hosted, lifecycle := fun _ => .ok true } e).1 =
          [.start []] := by
  intro msg
  refine ⟨fun c => ?_, _, rfl, rfl⟩
  cases c <;> simp [Command.toStr]

end Service

end RaCommon
