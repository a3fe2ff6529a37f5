import RaCommon.Envelope.Routing

set_option relaxedAutoImplicit false
set_option autoImplicit false

/-!
# The state of a service (`service/service_status.hpp`, `service/service_core.hpp`)

`UpdateStatus` changes the status, tells the observer and sends a report to the producer. The
observer is user code and may itself call `UpdateStatus` while it is told. What it does then is an
argument of `updateStatus`; a run of such calls is a tree.

## Main definitions

* `RaCommon.ServiceStatus`, `RaCommon.ServiceReport`, `RaCommon.ServiceCore` — the data.
* `RaCommon.ServiceCore.updateStatus` — `UpdateStatus`, with the events it causes.
* `RaCommon.ServiceCore.Call`, `RaCommon.ServiceCore.runAll` — calls with the calls the observer
  makes inside of them, and their execution.
* `RaCommon.ServiceCore.Announces` — the events announce every change once and in order.
* `RaCommon.ServiceCore.Quiet` — the observer changes nothing while it is told.

## Main results

* `RaCommon.ServiceCore.follows_runAll` — what holds of every run: the observer hears every change
  in order, and as many reports are sent as there are changes.
* `RaCommon.ServiceCore.announces_iff_quiet` — the reports are those of the changes exactly when
  the observer is quiet.
-/

namespace RaCommon

/-! ## Statuses and reports -/

/-- `ServiceStatus`. -/
inductive ServiceStatus where
  | notInitialized
  | initializing
  | waiting
  | starting
  | running
  | verified
  | partiallyRunning
  | degradedRunning
  | unstable
  | pausing
  | paused
  | unpausing
  | shuttingDown
  | gracefullyShuttingDown
  | shutdown
  | gracefullyShutdown
  | restarting
  | unavailable
  | error
  deriving DecidableEq, Repr

/-- `ToString(ServiceStatus)`. -/
def ServiceStatus.toStr : ServiceStatus → Str
  | .notInitialized => str "NotInitialized"
  | .initializing => str "Initializing"
  | .waiting => str "Waiting"
  | .starting => str "Starting"
  | .running => str "Running"
  | .verified => str "Verified"
  | .partiallyRunning => str "PartiallyRunning"
  | .degradedRunning => str "DegradedRunning"
  | .unstable => str "Unstable"
  | .pausing => str "Pausing"
  | .paused => str "Paused"
  | .unpausing => str "Unpausing"
  | .shuttingDown => str "ShuttingDown"
  | .gracefullyShuttingDown => str "GracefullyShuttingDown"
  | .shutdown => str "Shutdown"
  | .gracefullyShutdown => str "GracefullyShutdown"
  | .restarting => str "Restarting"
  | .unavailable => str "Unavailable"
  | .error => str "Error"

/-- A report's text determines the status. -/
lemma ServiceStatus.toStr_injective : Function.Injective ServiceStatus.toStr := by
  intro a b h
  cases a <;> cases b <;> first | rfl | exact absurd h (by simp [toStr])

/-- `ServiceReport`. -/
structure ServiceReport where
  serviceClassName : Str
  serviceStatusValue : ServiceStatus
  registered : Bool := false
  running : Bool := false
  version : Option Str := none
  servicesDependentUpon : List Str := []

/-- `ServiceReport::ToJson`. -/
def ServiceReport.toJson (r : ServiceReport) : Json :=
  .object <| Fields.of
      [(str "service_class_name", .string r.serviceClassName),
        (str "service_status", .string r.serviceStatusValue.toStr),
        (str "registered", .boolean r.registered),
        (str "running", .boolean r.running)]
    |>.setOpt (str "version") r.version .string
    |>.setIf (!r.servicesDependentUpon.isEmpty) (str "services_dependent_upon")
      (Json.ofStrings r.servicesDependentUpon)

/-- `ServiceCore`. Of the two pointers to other components it only matters here whether they are
set. -/
structure ServiceCore where
  serviceClassName : Str
  status : ServiceStatus := .notInitialized
  registered : Bool := false
  version : Option Str := none
  servicesDependentUpon : List Str := []
  config : List (Str × Str) := []
  producer : Bool := false
  observer : Bool := false

namespace ServiceCore

/-- `ServiceCore::Report`. -/
def report (core : ServiceCore) : ServiceReport :=
  { serviceClassName := core.serviceClassName
    serviceStatusValue := core.status
    registered := core.registered
    running := core.status = .running
    version := core.version
    servicesDependentUpon := core.servicesDependentUpon }

/-! ## Changing the status -/

/-- `ServiceStatusEventType`. -/
def serviceStatusEventType : Str := str "SERVICE_STATUS"

/-- The envelope that `UpdateStatus` sends: an event with the report, routed to the notification
service. -/
def statusEvent (core : ServiceCore) (draws : Draws) : Envelope :=
  let ev := EventMessage.new draws.here serviceStatusEventType none
  let ev := { ev with messageValue := core.report.toJson }
  let first := EventMessage.new (draws.nested 0).here serviceStatusEventType none
  let e := Envelope.new (draws.nested 1) none (some (.event first))
  let e := { e with message := some (.event ev) }
  let e := e.addRoute (draws.nested 2).here (str "ra.notification.NotificationService")
    (str "PUBLISH")
  e.ratchet

/-- What happens in a call of `UpdateStatus`. -/
inductive Event where
  /-- The status field takes a new value. -/
  | changed (status : ServiceStatus)
  /-- `observer->ServiceStatusChanged`. -/
  | told (serviceFullName : Str) (status : ServiceStatus)
  /-- `producer->Send`. -/
  | sent (e : Envelope)

/-- `ServiceCore::UpdateStatus`, where `statusChanged` is what the observer does while it is told:
the core it leaves behind and the events of the calls it makes. The draws of the event's ids are
taken not to fail. -/
def updateStatus (core : ServiceCore) (draws : Draws) (status : ServiceStatus)
    (statusChanged : ServiceCore → ServiceCore × List Event) : ServiceCore × List Event :=
  if core.status = status then (core, [])
  else
    let core := { core with status }
    let r :=
      if core.observer then
        let r := statusChanged core
        (r.1, .told core.serviceClassName status :: r.2)
      else (core, [])
    (r.1, .changed status :: r.2 ++ if r.1.producer then [.sent (r.1.statusEvent draws)] else [])

/-- A call of `UpdateStatus`, with the calls the observer makes from inside
`ServiceStatusChanged`, if it is told. -/
inductive Call where
  | updateStatus (draws : Draws) (status : ServiceStatus) (nested : List Call)

/-- The status a call asks for. -/
def Call.status : Call → ServiceStatus
  | .updateStatus _ status _ => status

/-- The calls that the observer makes inside of a call. -/
def Call.nested : Call → List Call
  | .updateStatus _ _ nested => nested

mutual

/-- The execution of a call. -/
def run : Call → ServiceCore → ServiceCore × List Event
  | .updateStatus draws status nested, core =>
    core.updateStatus draws status fun core => runAll nested core

/-- The execution of a sequence of calls. -/
def runAll : List Call → ServiceCore → ServiceCore × List Event
  | [], core => (core, [])
  | call :: calls, core =>
    let r := run call core
    let s := runAll calls r.1
    (s.1, r.2 ++ s.2)

end

/-! ## What is announced -/

/-- The successive values of the status field. -/
def taken (events : List Event) : List ServiceStatus :=
  events.filterMap fun
    | .changed status => some status
    | _ => none

/-- What the observer is told. -/
def told (events : List Event) : List (Str × ServiceStatus) :=
  events.filterMap fun
    | .told name status => some (name, status)
    | _ => none

/-- The status that a `SERVICE_STATUS` event carries. -/
def reportedStatus (e : Envelope) : Option Str :=
  match e.message with
  | some (.event m) =>
    if m.eventType = serviceStatusEventType then
      match m.messageValue.find? (str "service_status") with
      | some (.string s) => some s
      | _ => none
    else none
  | _ => none

/-- The statuses that the reports handed to the producer carry. -/
def reported (events : List Event) : List Str :=
  events.filterMap fun
    | .sent e => reportedStatus e
    | _ => none

/-- Producer and observer hear of every change, once and in order, and of nothing else. -/
def Announces (core : ServiceCore) (events : List Event) : Prop :=
  reported events = (taken events).map ServiceStatus.toStr ∧
    told events = (taken events).map fun status => (core.serviceClassName, status)

/-- No call that the observer makes while it is told of a change is for another status: the calls
`calls` on a service with status `status`. -/
def Quiet : ServiceStatus → List Call → Prop
  | _, [] => True
  | status, call :: calls =>
    (call.status = status ∨ ∀ n ∈ call.nested, n.status = call.status) ∧ Quiet call.status calls

@[simp] lemma reportedStatus_statusEvent (core : ServiceCore) (draws : Draws) :
    reportedStatus (core.statusEvent draws) = some core.status.toStr := by
  simp [reportedStatus, statusEvent, Envelope.ratchet, Envelope.addRoute, EventMessage.new,
    ServiceReport.toJson, report, Json.find?]

/-! ## Every run -/

section Lists

variable (es fs : List Event) (name : Str) (status : ServiceStatus) (core : ServiceCore)
  (draws : Draws)

@[simp] lemma taken_nil : taken [] = [] := rfl

@[simp] lemma reported_nil : reported [] = [] := rfl

@[simp] lemma taken_append : taken (es ++ fs) = taken es ++ taken fs := List.filterMap_append

@[simp] lemma told_append : told (es ++ fs) = told es ++ told fs := List.filterMap_append

@[simp] lemma reported_append : reported (es ++ fs) = reported es ++ reported fs :=
  List.filterMap_append

/-- The events of a call that changes the status: those of the calls made inside of it come between
its first and its last. -/
def around : List Event :=
  .changed status :: .told name status :: (es ++ [.sent (core.statusEvent draws)])

@[simp] lemma taken_around : taken (around es name status core draws) = status :: taken es := by
  simp [around, taken]

@[simp] lemma told_around :
    told (around es name status core draws) = (name, status) :: told es := by
  simp [around, told]

@[simp] lemma reported_around :
    reported (around es name status core draws) = reported es ++ [core.status.toStr] := by
  simp [around, reported]

end Lists

/-- What holds of the execution of any calls on a core with an observer and a producer, whatever
the observer does: it hears every change in order, there are as many reports as changes, and the
last report is about the last change. -/
structure Follows (core : ServiceCore) (r : ServiceCore × List Event) : Prop where
  name : r.1.serviceClassName = core.serviceClassName
  observer : r.1.observer = true
  producer : r.1.producer = true
  told : told r.2 = (taken r.2).map fun status => (core.serviceClassName, status)
  status : r.1.status = (taken r.2).getLastD core.status
  length : (reported r.2).length = (taken r.2).length
  last : taken r.2 ≠ [] → (reported r.2).getLast? = some r.1.status.toStr
  chain : List.IsChain (· ≠ ·) (core.status :: taken r.2)

/-- Nothing happens. -/
lemma follows_nil {core : ServiceCore} (ho : core.observer = true) (hp : core.producer = true) :
    Follows core (core, []) where
  name := rfl
  observer := ho
  producer := hp
  told := rfl
  status := rfl
  length := rfl
  last := fun h => absurd rfl h
  chain := List.isChain_singleton _

/-- One execution after another. -/
lemma Follows.append {core : ServiceCore} {r s : ServiceCore × List Event} (hr : Follows core r)
    (hs : Follows r.1 s) : Follows core (s.1, r.2 ++ s.2) where
  name := hs.name.trans hr.name
  observer := hs.observer
  producer := hs.producer
  told := by
    rw [told_append, taken_append, List.map_append, hr.told, hs.told, hr.name]
  status := by
    rw [hs.status, hr.status, taken_append]
    cases taken s.2 with
    | nil => simp
    | cons a l => simp
  length := by
    rw [reported_append, taken_append, List.length_append, List.length_append, hr.length,
      hs.length]
  last := by
    intro hne
    rw [taken_append] at hne
    rw [reported_append, List.getLast?_append]
    by_cases hnil : taken s.2 = []
    · have hreported : reported s.2 = [] := by
        rw [← List.length_eq_zero_iff, hs.length, hnil, List.length_nil]
      have hstatus : s.1.status = r.1.status := by rw [hs.status, hnil, List.getLastD_nil]
      rw [hnil, List.append_nil] at hne
      rw [hreported, hr.last hne, hstatus]
      rfl
    · rw [hs.last hnil]
      rfl
  chain := by
    have hchain := List.isChain_cons.mp hs.chain
    rw [taken_append, ← List.cons_append]
    refine List.isChain_append.mpr ⟨hr.chain, hchain.2, fun x hx y hy => ?_⟩
    rw [List.getLast?_cons, ← List.getLastD_eq_getLast?, ← hr.status] at hx
    obtain rfl : r.1.status = x := by simpa using hx
    exact hchain.1 y hy

/-- What a call causes that changes the status: the calls made inside of it stand between the
change and the report, which is about the status they leave behind. -/
lemma updateStatus_of_ne {core : ServiceCore} {status : ServiceStatus} (draws : Draws)
    {statusChanged : ServiceCore → ServiceCore × List Event} (hne : core.status ≠ status)
    (ho : core.observer = true) {r : ServiceCore × List Event}
    (hr : statusChanged { core with status } = r) (hp : r.1.producer = true) :
    core.updateStatus draws status statusChanged =
      (r.1, around r.2 core.serviceClassName status r.1 draws) := by
  subst hr
  rw [updateStatus, if_neg hne]
  dsimp only
  rw [if_pos ho, if_pos hp]
  rfl

/-- One call, in which the observer makes calls of which the same holds. -/
lemma follows_updateStatus {core : ServiceCore} (draws : Draws) (status : ServiceStatus)
    {statusChanged : ServiceCore → ServiceCore × List Event} (ho : core.observer = true)
    (hp : core.producer = true)
    (h : Follows { core with status } (statusChanged { core with status })) :
    Follows core (core.updateStatus draws status statusChanged) := by
  by_cases hne : core.status = status
  · rw [updateStatus, if_pos hne]
    exact follows_nil ho hp
  · generalize hr : statusChanged { core with status } = r at h
    rw [updateStatus_of_ne draws hne ho hr h.producer]
    refine ⟨h.name, h.observer, h.producer, ?_, ?_, ?_, ?_, ?_⟩
    · rw [taken_around, told_around, h.told, List.map_cons]
    · rw [taken_around, List.getLastD_cons]
      exact h.status
    · rw [taken_around, reported_around, List.length_append, List.length_cons, h.length]
      rfl
    · intro _
      rw [reported_around, List.getLast?_concat]
    · rw [taken_around]
      exact List.isChain_cons_cons.mpr ⟨hne, h.chain⟩

mutual

/-- One call, with the calls the observer makes inside of it. -/
lemma follows_run : (call : Call) → (core : ServiceCore) → core.observer = true →
    core.producer = true → Follows core (run call core)
  | .updateStatus draws status nested, core, ho, hp =>
    follows_updateStatus draws status ho hp (follows_runAll nested { core with status } ho hp)

/-- **What holds of every run**: induction over the tree of calls. -/
theorem follows_runAll : (calls : List Call) → (core : ServiceCore) → core.observer = true →
    core.producer = true → Follows core (runAll calls core)
  | [], _, ho, hp => follows_nil ho hp
  | call :: calls, core, ho, hp =>
    have hcall := follows_run call core ho hp
    hcall.append (follows_runAll calls (run call core).1 hcall.observer hcall.producer)

end

/-! ## When the reports are those of the changes -/

/-- A call for the status the core has. -/
lemma run_of_eq {core : ServiceCore} {call : Call} (h : call.status = core.status) :
    run call core = (core, []) := by
  obtain ⟨draws, status, nested⟩ := call
  rw [run, updateStatus]
  exact if_pos h.symm

/-- A call for another status. -/
lemma run_of_ne {core : ServiceCore} {call : Call} (h : call.status ≠ core.status)
    (ho : core.observer = true) (hp : core.producer = true) :
    ∃ draws, run call core =
      ((runAll call.nested { core with status := call.status }).1,
        around (runAll call.nested { core with status := call.status }).2 core.serviceClassName
          call.status (runAll call.nested { core with status := call.status }).1 draws) := by
  obtain ⟨draws, status, nested⟩ := call
  refine ⟨draws, ?_⟩
  rw [run]
  have hinside := follows_runAll nested { core with status } ho hp
  exact updateStatus_of_ne draws (Ne.symm h) ho rfl hinside.producer

/-- The calls that change nothing are those for the status the core has. -/
lemma taken_runAll_eq_nil {calls : List Call} {core : ServiceCore} (ho : core.observer = true)
    (hp : core.producer = true) :
    taken (runAll calls core).2 = [] ↔ ∀ call ∈ calls, call.status = core.status := by
  induction calls with
  | nil => simp [runAll]
  | cons call calls ih =>
    rw [runAll, taken_append, List.append_eq_nil_iff, List.forall_mem_cons]
    by_cases heq : call.status = core.status
    · rw [run_of_eq heq, ih]
      simp [heq]
    · obtain ⟨draws, hrun⟩ := run_of_ne heq ho hp
      rw [hrun, taken_around]
      simp [heq]

/-- In a call that changes the status, the reports are those of the changes exactly when no call
inside of it changes the status again.

**Proof sketch.** Suppose there are changes inside. The report of the last one and the report of
the outer call are both about the last status, so two reports in a row are equal; but no two
changes in a row are. -/
theorem reported_eq_iff {core : ServiceCore} {r : ServiceCore × List Event} (h : Follows core r) :
    reported r.2 ++ [r.1.status.toStr] = (core.status :: taken r.2).map ServiceStatus.toStr ↔
      taken r.2 = [] := by
  constructor
  · intro heq
    by_contra hne
    obtain ⟨before, final, htaken⟩ := (List.eq_nil_or_concat (taken r.2)).resolve_left hne
    have hchain := h.chain
    rw [htaken, List.concat_eq_append, ← List.cons_append] at heq hchain
    rw [List.map_append] at heq
    obtain ⟨hreported, hfinal⟩ := List.append_inj' heq rfl
    have hlast := h.last hne
    rw [hreported, (List.cons.inj hfinal).1, List.getLast?_map, Option.map_eq_some_iff] at hlast
    obtain ⟨status, hstatus, heq⟩ := hlast
    have hdistinct := (List.isChain_append.mp hchain).2.2 status hstatus final rfl
    exact hdistinct (ServiceStatus.toStr_injective heq)
  · intro hnil
    have hreported : reported r.2 = [] := by
      rw [← List.length_eq_zero_iff, h.length, hnil, List.length_nil]
    have hstatus : r.1.status = core.status := by rw [h.status, hnil, List.getLastD_nil]
    rw [hnil, hreported, hstatus]
    rfl

/-- **The reports are those of the changes exactly when the observer is quiet.**

**Proof sketch.** Induction on the calls. As many reports as changes come from each call, so the
reports of all calls are right exactly when those of each one are; and a call whose reports are
right leaves the status it asked for. -/
theorem reported_iff_quiet {calls : List Call} {core : ServiceCore} (ho : core.observer = true)
    (hp : core.producer = true) :
    reported (runAll calls core).2 = (taken (runAll calls core).2).map ServiceStatus.toStr ↔
      Quiet core.status calls := by
  induction calls generalizing core with
  | nil => simp [runAll, Quiet]
  | cons call calls ih =>
    rw [runAll, reported_append, taken_append, List.map_append, Quiet]
    by_cases heq : call.status = core.status
    · rw [run_of_eq heq, heq]
      simpa using ih ho hp
    · obtain ⟨draws, hrun⟩ := run_of_ne heq ho hp
      have hinside := follows_runAll call.nested { core with status := call.status } ho hp
      have hquiet : taken (runAll call.nested { core with status := call.status }).2 = [] ↔
          ∀ c ∈ call.nested, c.status = call.status := taken_runAll_eq_nil ho hp
      rw [hrun, taken_around, reported_around, or_iff_right heq, ← hquiet,
        ← reported_eq_iff hinside]
      generalize runAll call.nested { core with status := call.status } = r at hinside
      have hstatus : reported r.2 ++ [r.1.status.toStr] =
          (call.status :: taken r.2).map ServiceStatus.toStr → r.1.status = call.status := by
        intro h
        rw [hinside.status, (reported_eq_iff hinside).mp h, List.getLastD_nil]
      have hlength : (reported r.2 ++ [r.1.status.toStr]).length =
          ((call.status :: taken r.2).map ServiceStatus.toStr).length := by
        rw [List.length_append, List.length_map, List.length_cons, hinside.length]
        rfl
      have ih := ih hinside.observer hinside.producer
      constructor
      · intro h
        obtain ⟨hfirst, hothers⟩ := List.append_inj h hlength
        exact ⟨hfirst, hstatus hfirst ▸ ih.mp hothers⟩
      · rintro ⟨hfirst, hothers⟩
        rw [hfirst, ih.mpr (hstatus hfirst ▸ hothers)]

/-- **Producer and observer hear of every change once and in order** exactly when the observer,
while it is told of a change, makes no call for another status. -/
theorem announces_iff_quiet (core : ServiceCore) (calls : List Call) (ho : core.observer = true)
    (hp : core.producer = true) :
    Announces core (runAll calls core).2 ↔ Quiet core.status calls := by
  rw [Announces, reported_iff_quiet ho hp]
  exact and_iff_left (follows_runAll calls core ho hp).told

/-- A service on a bus, watched by an observer. -/
def hosted : ServiceCore :=
  { serviceClassName := str "ra.test.Toy", producer := true, observer := true }

/-- A call in which the observer makes some calls. -/
def callOf (status : ServiceStatus) (nested : List Call) : Call :=
  .updateStatus (fun _ => ⟨⟨List.replicate 16 0, rfl⟩, 0⟩) status nested

/-- An observer that asks again for the status it is told of is quiet. -/
theorem announces_iff_quiet_echo :
    Announces hosted
      (runAll [callOf .starting [callOf .starting []], callOf .running []] hosted).2 :=
  (announces_iff_quiet hosted [callOf .starting [callOf .starting []], callOf .running []] rfl
    rfl).mpr ⟨.inr (by decide +kernel), .inr (by decide +kernel), trivial⟩

/-- An observer that goes on to `Running` when it is told of `Starting`: the producer gets two
reports about `Running` and none about `Starting`. -/
theorem announces_nested :
    hosted.observer = true ∧ hosted.producer = true ∧
      taken (runAll [callOf .starting [callOf .running []]] hosted).2 = [.starting, .running] ∧
      reported (runAll [callOf .starting [callOf .running []]] hosted).2 =
        [str "Running", str "Running"] ∧
      ¬Announces hosted (runAll [callOf .starting [callOf .running []]] hosted).2 := by
  have htaken : taken (runAll [callOf .starting [callOf .running []]] hosted).2 =
      [.starting, .running] := by decide +kernel
  have hreported : reported (runAll [callOf .starting [callOf .running []]] hosted).2 =
      [str "Running", str "Running"] := by decide +kernel
  refine ⟨rfl, rfl, htaken, hreported, fun h => ?_⟩
  rw [Announces, htaken, hreported] at h
  exact absurd h.1 (by decide)

end ServiceCore

end RaCommon
