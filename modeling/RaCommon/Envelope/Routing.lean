import RaCommon.Envelope.Envelope
import RaCommon.Library.Ledger
import RaCommon.Library.Transition

set_option relaxedAutoImplicit false
set_option autoImplicit false

/-!
# Routing an envelope (`envelope.hpp`)

The current route of an envelope is kept twice, in its routing slip and as a copy in the envelope
itself, and asking for it may advance the slip. The purpose of both is a ledger of routes that are
delivered last in, first out.

## Main definitions

* `RaCommon.Envelope.getRoute`, `RaCommon.Envelope.ratchet`, `RaCommon.Envelope.addRoute`,
  `RaCommon.Envelope.addExternalRoute` — the routing functions.
* `RaCommon.Envelope.Call`, `RaCommon.Envelope.step` — runs of them, in which the envelope may also
  be written and read back.
* `RaCommon.Envelope.Call.event` — what a call means for the ledger.
* `RaCommon.Envelope.FollowsLedger` — what the ledger says about the envelope.

## Main results

* `RaCommon.Envelope.Reflects.step` — every call keeps the envelope and its ledger together.
* `RaCommon.Envelope.follows_ledger` — after any calls, the envelope is where its ledger says.
-/

namespace RaCommon

namespace Envelope

/-! ## The routing functions -/

/-- `Envelope::GetRoute`: the envelope afterwards, and the route that is returned. -/
def getRoute (e : Envelope) : Envelope × Option Route :=
  match e.route with
  | some route => (e, some route)
  | none =>
    let current := e.dynamicRoutingSlip.currentRoute
    let route := current.2.map Route.clone
    ({ e with dynamicRoutingSlip := current.1, route }, route)

/-- `Envelope::Ratchet`. -/
def ratchet (e : Envelope) : Envelope :=
  let next := e.dynamicRoutingSlip.nextRoute
  { e with dynamicRoutingSlip := next.1, route := next.2.map Route.clone }

/-- `Envelope::AddRoute`. -/
def addRoute (d : Draw) (e : Envelope) (service operation : Str) : Envelope :=
  { e with
    dynamicRoutingSlip := e.dynamicRoutingSlip.addRoute (.simple (.of d service operation)) }

/-- `Envelope::AddExternalRoute`. -/
def addExternalRoute (d : Draw) (e : Envelope) (service operation : Str) : Envelope :=
  { e with
    dynamicRoutingSlip :=
      e.dynamicRoutingSlip.addRoute (.simpleExternal (.of d service operation)) }

/-- With a current route, `GetRoute` changes nothing. -/
lemma getRoute_of_some {e : Envelope} {route : Route} (h : e.route = some route) :
    e.getRoute = (e, some route) := by
  rw [getRoute, h]

/-- `GetRoute` returns the current route of the envelope. -/
lemma getRoute_snd (e : Envelope) : e.getRoute.2 = e.getRoute.1.route := by
  cases h : e.route with
  | none => rw [getRoute, h]
  | some route => rw [getRoute_of_some h, h]

/-- `Ratchet` on an empty slip. -/
lemma ratchet_of_nil {e : Envelope} (h : e.dynamicRoutingSlip.routes = []) :
    e.ratchet =
      { e with dynamicRoutingSlip := { e.dynamicRoutingSlip with current := none }
               route := none } := by
  rw [ratchet, DynamicRoutingSlip.nextRoute_of_nil h]
  rfl

/-- `Ratchet` on a slip with routes. -/
lemma ratchet_of_cons {e : Envelope} {route : Route} {routes : List Route}
    (h : e.dynamicRoutingSlip.routes = route :: routes) :
    e.ratchet =
      { e with dynamicRoutingSlip := { e.dynamicRoutingSlip with routes, current := some route }
               route := some route } := by
  rw [ratchet, DynamicRoutingSlip.nextRoute_of_cons h]
  simp

/-- `Ratchet` on a slip that has run dry changes nothing any more. -/
lemma ratchet_ratchet {e : Envelope} (h : e.ratchet.route = none) :
    e.ratchet.ratchet = e.ratchet := by
  cases hroutes : e.dynamicRoutingSlip.routes with
  | nil =>
    rw [ratchet_of_nil hroutes]
    exact ratchet_of_nil hroutes
  | cons route routes =>
    rw [ratchet_of_cons hroutes] at h
    exact absurd h (Option.some_ne_none route)

/-! ## Runs -/

/-- A call of a routing function, or the envelope written and read back in between. -/
inductive Call where
  | addRoute (service operation : Str)
  | addExternalRoute (service operation : Str)
  | getRoute
  | ratchet
  | reload

/-- What a call makes of the envelope, with what it draws. -/
def Call.apply (draws : Draws) (e : Envelope) : Call → Outcome Envelope
  | .addRoute service operation => .ok (e.addRoute draws.here service operation)
  | .addExternalRoute service operation => .ok (e.addExternalRoute draws.here service operation)
  | .getRoute => .ok e.getRoute.1
  | .ratchet => .ok e.ratchet
  | .reload => fromJson draws e.toJson

/-- A call that does not fail. -/
def step (e : Envelope) (call : Draws × Call) : Option Envelope :=
  (call.2.apply call.1 e).toOption

/-! ## The ledger of a run -/

/-- The route that `AddRoute` adds to a slip with id `routeId`. -/
def simpleItem (routeId : Int64) (service operation : Str) : Route :=
  .simple ⟨{ service := some service, operation := some operation, routeId }⟩

/-- The route that `AddExternalRoute` adds to a slip with id `routeId`. -/
def externalItem (routeId : Int64) (service operation : Str) : Route :=
  .simpleExternal
    { «meta» := { service := some service, operation := some operation, routeId }
      sendContentOnly := true }

/-- What a call means for the ledger of routes. -/
def Call.event (routeId : Int64) : Call → Ledger.Event Route
  | .addRoute service operation => .add (simpleItem routeId service operation)
  | .addExternalRoute service operation => .add (externalItem routeId service operation)
  | .getRoute => .ask
  | .ratchet => .advance
  | .reload => .keep

/-- The ledger after some calls. -/
noncomputable def ledger (routeId : Int64) (calls : List (Draws × Call)) : Ledger Route :=
  Ledger.run (calls.map fun call => call.2.event routeId)

/-- The ledger after one more call. -/
lemma ledger_concat (routeId : Int64) (calls : List (Draws × Call)) (call : Draws × Call) :
    ledger routeId (calls ++ [call]) = (ledger routeId calls).step (call.2.event routeId) := by
  rw [ledger, List.map_append]
  exact Ledger.run_concat _ _

/-! ## The simulation -/

/-- How an envelope with slip id `routeId` and its ledger belong together. -/
structure Reflects (routeId : Int64) (e : Envelope) (l : Ledger Route) : Prop where
  slip_routeId : e.dynamicRoutingSlip.meta.routeId = routeId
  route_eq : e.route = e.dynamicRoutingSlip.current
  current_eq : e.dynamicRoutingSlip.current = l.currentItem
  routes_eq : e.dynamicRoutingSlip.routes = l.stack
  routeId_eq : ∀ r ∈ l.added, r.routeId = routeId
  reloaded_eq : ∀ r ∈ l.added, r.reloaded = r

namespace Reflects

variable {routeId : Int64} {e : Envelope} {l : Ledger Route}

/-- A new envelope has an empty ledger. -/
lemma new (draws : Draws) (id : Option Str) (message : Option Message) :
    Reflects (Envelope.new draws id message).dynamicRoutingSlip.meta.routeId
      (Envelope.new draws id message) Ledger.empty where
  slip_routeId := rfl
  route_eq := rfl
  current_eq := rfl
  routes_eq := rfl
  routeId_eq := by simp [Ledger.empty]
  reloaded_eq := by simp [Ledger.empty]

/-- A route pushed onto the slip is an item added to the ledger. -/
lemma add (h : Reflects routeId e l) (route : Route) (hid : route.routeId = routeId)
    (hreloaded : route.reloaded = route) :
    Reflects routeId
      { e with
        dynamicRoutingSlip :=
          { e.dynamicRoutingSlip with routes := route :: e.dynamicRoutingSlip.routes } }
      (l.add route) where
  slip_routeId := h.slip_routeId
  route_eq := h.route_eq
  current_eq := h.current_eq.trans (l.currentItem_add route).symm
  routes_eq := by rw [Ledger.stack_add, h.routes_eq]
  routeId_eq := by
    intro r hr
    rcases List.mem_append.mp hr with hr | hr
    · exact h.routeId_eq r hr
    · rw [List.mem_singleton.mp hr, hid]
  reloaded_eq := by
    intro r hr
    rcases List.mem_append.mp hr with hr | hr
    · exact h.reloaded_eq r hr
    · rw [List.mem_singleton.mp hr, hreloaded]

/-- `Ratchet` delivers the newest item. -/
lemma ratchet (h : Reflects routeId e l) : Reflects routeId e.ratchet l.advance := by
  have hrouteId : ∀ r ∈ l.advance.added, r.routeId = routeId := by
    rw [l.added_advance]
    exact h.routeId_eq
  have hreloaded : ∀ r ∈ l.advance.added, r.reloaded = r := by
    rw [l.added_advance]
    exact h.reloaded_eq
  cases hroutes : e.dynamicRoutingSlip.routes with
  | nil =>
    obtain ⟨hstack, hcurrent⟩ := Ledger.advance_of_stack_nil (h.routes_eq.symm.trans hroutes)
    rw [ratchet_of_nil hroutes]
    exact ⟨h.slip_routeId, rfl, hcurrent.symm, hroutes.trans hstack.symm, hrouteId, hreloaded⟩
  | cons route routes =>
    obtain ⟨hstack, hcurrent⟩ := Ledger.advance_of_stack_cons (h.routes_eq.symm.trans hroutes)
    rw [ratchet_of_cons hroutes]
    exact ⟨h.slip_routeId, rfl, hcurrent.symm, hstack.symm, hrouteId, hreloaded⟩

/-- Where there is no current route, `GetRoute` does what `Ratchet` does. -/
lemma getRoute_of_none (h : Reflects routeId e l) (hroute : e.route = none) :
    e.getRoute = (e.ratchet, e.ratchet.route) := by
  have hcurrent : e.dynamicRoutingSlip.current = none := h.route_eq.symm.trans hroute
  rw [getRoute, hroute, DynamicRoutingSlip.currentRoute, hcurrent]
  rfl

/-- `GetRoute` delivers the newest item if there is no current one. -/
lemma getRoute (h : Reflects routeId e l) : Reflects routeId e.getRoute.1 l.ask := by
  have hitem : e.route = l.currentItem := h.route_eq.trans h.current_eq
  cases hroute : e.route with
  | none =>
    have hcurrent := Ledger.currentItem_eq_none_iff.mp (hitem.symm.trans hroute)
    rw [h.getRoute_of_none hroute, Ledger.ask, hcurrent]
    exact h.ratchet
  | some route =>
    have hne : l.current ≠ none := by
      rw [Ne, ← Ledger.currentItem_eq_none_iff, ← hitem, hroute]
      exact Option.some_ne_none route
    obtain ⟨i, hi⟩ := Option.ne_none_iff_exists'.mp hne
    rw [getRoute_of_some hroute, Ledger.ask, hi]
    exact h

/-- A second `GetRoute` does what the first did. -/
lemma getRoute_again (h : Reflects routeId e l) : e.getRoute.1.getRoute = e.getRoute := by
  cases hroute : e.getRoute.1.route with
  | some route =>
    rw [getRoute_of_some hroute, ← hroute, ← getRoute_snd]
  | none =>
    have hnone : e.route = none := by
      cases he : e.route with
      | none => rfl
      | some route =>
        rw [getRoute_of_some he] at hroute
        exact he.symm.trans hroute
    rw [h.getRoute.getRoute_of_none hroute]
    rw [h.getRoute_of_none hnone] at hroute ⊢
    rw [ratchet_ratchet hroute]

/-- Writing the envelope and reading it back changes nothing in its routes. -/
lemma reload (h : Reflects routeId e l) : Reflects routeId e.reloaded l := by
  have hslip : e.dynamicRoutingSlip.reloaded = e.dynamicRoutingSlip := by
    apply DynamicRoutingSlip.reloaded_of_forall
    · intro r hr
      rw [h.routes_eq] at hr
      exact h.reloaded_eq r (Ledger.mem_added_of_mem_stack hr)
    · intro r hr
      rw [h.current_eq] at hr
      exact h.reloaded_eq r (Ledger.mem_added_of_currentItem hr)
  have hroute : e.route.map Route.reloaded = e.route := by
    cases hr : e.route with
    | none => rfl
    | some r =>
      have hitem : l.currentItem = some r := by
        rw [← h.current_eq, ← h.route_eq, hr]
      rw [Option.map_some, h.reloaded_eq r (Ledger.mem_added_of_currentItem hitem)]
  rw [reloaded, hslip, hroute]
  exact ⟨h.slip_routeId, h.route_eq, h.current_eq, h.routes_eq, h.routeId_eq, h.reloaded_eq⟩

/-- **Every call** succeeds and keeps the envelope and its ledger together. -/
theorem step (h : Reflects routeId e l) (call : Draws × Call) :
    ∃ e', e.step call = some e' ∧ Reflects routeId e' (l.step (call.2.event routeId)) := by
  obtain ⟨draws, call⟩ := call
  cases call with
  | addRoute service operation =>
    refine ⟨_, rfl, ?_⟩
    have hadd := h.add (simpleItem routeId service operation) rfl rfl
    rw [simpleItem, ← h.slip_routeId] at hadd
    rwa [Call.event, simpleItem, ← h.slip_routeId]
  | addExternalRoute service operation =>
    refine ⟨_, rfl, ?_⟩
    have hadd := h.add (externalItem routeId service operation) rfl rfl
    rw [externalItem, ← h.slip_routeId] at hadd
    rwa [Call.event, externalItem, ← h.slip_routeId]
  | getRoute => exact ⟨_, rfl, h.getRoute⟩
  | ratchet => exact ⟨_, rfl, h.ratchet⟩
  | reload =>
    refine ⟨e.reloaded, ?_, h.reload⟩
    rw [Envelope.step, Call.apply, fromJson_toJson]
    rfl

end Reflects

/-! ## Any calls -/

/-- What the ledger says about an envelope. -/
structure FollowsLedger (e : Envelope) (l : Ledger Route) : Prop where
  /-- The two current routes are both absent or structurally equal. -/
  route_eq : e.route = e.dynamicRoutingSlip.current
  /-- The current route is the one delivered last, until the slip has run dry. -/
  current_eq : e.dynamicRoutingSlip.current = l.currentItem
  /-- The routes on the slip are those pending. -/
  routes_eq : e.dynamicRoutingSlip.routes = l.stack
  /-- None is delivered twice, and none is lost. -/
  delivered_once : (l.delivered ++ l.pending).Perm (List.range l.added.length)
  /-- The routes that have become current, with those on the slip, are the routes added. -/
  delivered_or_pending : (l.deliveredItems ++ e.dynamicRoutingSlip.routes).Perm l.added
  /-- `Ratchet` makes the newest pending route the current one. -/
  ratchet_newest : ∀ i, IsGreatest l.Pending i → e.ratchet.route = l.added[i]?
  /-- On an empty slip, `Ratchet` leaves no current route. -/
  ratchet_dry : l.Pending = ∅ → e.ratchet.route = none
  /-- With a current route, `GetRoute` returns it and changes nothing. -/
  getRoute_current : e.route ≠ none → e.getRoute = (e, e.route)
  /-- Without one, `GetRoute` consumes what `Ratchet` would, and returns it. -/
  getRoute_none : e.route = none → e.getRoute = (e.ratchet, e.ratchet.route)
  /-- A second `GetRoute` in a row changes nothing and returns the same route. -/
  getRoute_again : e.getRoute.1.getRoute = e.getRoute
  /-- Every route carries the id of the slip. -/
  routeId_eq : ∀ r ∈ l.added, r.routeId = e.dynamicRoutingSlip.meta.routeId

/-- **After any calls, in any order** and with the envelope written and read back between any two
of them, the envelope is where its ledger says.

**Proof sketch.** By induction on the calls: each keeps the envelope and its ledger together
(`Reflects.step`). What `GetRoute` and `Ratchet` do afterwards is that step once more. -/
theorem follows_ledger (draws : Draws) (id : Option Str) (message : Option Message)
    (calls : List (Draws × Call)) :
    ∃ e, Transition.exec step (new draws id message) calls = some e ∧
      FollowsLedger e (ledger (new draws id message).dynamicRoutingSlip.meta.routeId calls) := by
  obtain ⟨e, he, h⟩ := Transition.total_induction
    (I := fun calls e => Reflects (new draws id message).dynamicRoutingSlip.meta.routeId e
      (ledger (new draws id message).dynamicRoutingSlip.meta.routeId calls))
    (Reflects.new draws id message)
    (fun calls e call h => by
      rw [ledger_concat]
      exact h.step call) calls
  refine ⟨e, he, ?_⟩
  generalize ledger (new draws id message).dynamicRoutingSlip.meta.routeId calls = l at h
  have hratchet : e.ratchet.route = l.advance.currentItem :=
    h.ratchet.route_eq.trans h.ratchet.current_eq
  exact
    { route_eq := h.route_eq
      current_eq := h.current_eq
      routes_eq := h.routes_eq
      delivered_once := l.perm_range
      delivered_or_pending := by
        rw [h.routes_eq]
        exact l.perm_added
      ratchet_newest := fun i hi => by
        rw [hratchet, Ledger.advance_of_isGreatest hi]
        rfl
      ratchet_dry := fun hempty => by
        rw [hratchet, Ledger.advance_of_pending_empty hempty]
        rfl
      getRoute_current := fun hne => by
        obtain ⟨route, hroute⟩ := Option.ne_none_iff_exists'.mp hne
        rw [getRoute_of_some hroute, hroute]
      getRoute_none := h.getRoute_of_none
      getRoute_again := h.getRoute_again
      routeId_eq := fun r hr => by rw [h.routeId_eq r hr, h.slip_routeId] }

end Envelope

end RaCommon
