import RaCommon.Library.Transition
import RaCommon.Route.DynamicRoutingSlip

set_option relaxedAutoImplicit false
set_option autoImplicit false

/-!
# The route ids of nested slips (`route/dynamic_routing_slip.hpp`)

`AddRoute` gives a route the id of the slip that takes it. When the route is itself a slip, the
routes it holds keep the id it had before.

## Main definitions

* `RaCommon.Route.held`, `RaCommon.Route.Stamped` — the routes a slip holds, and that they have its
  id, at every depth.
* `RaCommon.Hop`, `RaCommon.Route.atPlace`, `RaCommon.Route.setAt` — the routes inside a route.
* `RaCommon.Owned`, `RaCommon.SlipCall`, `RaCommon.Owned.step` — a program that builds and walks
  slips.

## Main results

* `RaCommon.Route.stamped_setRouteId_iff` — when a route with a new id is stamped.
* `RaCommon.Route.stamped_setAt` — a call on a slip inside a route.
* `RaCommon.Owned.stamped_iff_meets` — in which runs all routes are stamped.
-/

namespace RaCommon

/-! ## What slips hold -/

namespace Route

/-- The routes on the stack of a slip, and its current route. -/
def held : Route → List Route
  | .routingSlip slip => slip.routes ++ slip.current.toList
  | _ => []

/-- At every depth, the routes that a slip holds have its id. -/
inductive Stamped : Route → Prop where
  | intro (r : Route) (routeId_eq : ∀ h ∈ r.held, h.routeId = r.routeId)
      (stamped : ∀ h ∈ r.held, Stamped h) : Stamped r

/-- `Stamped`, one level down. -/
lemma stamped_iff {r : Route} :
    r.Stamped ↔ ∀ h ∈ r.held, h.routeId = r.routeId ∧ h.Stamped := by
  constructor
  · rintro ⟨_, hid, hstamped⟩ h hh
    exact ⟨hid h hh, hstamped h hh⟩
  · intro hall
    exact ⟨r, fun h hh => (hall h hh).1, fun h hh => (hall h hh).2⟩

/-- A route that holds none is stamped. -/
lemma stamped_of_held_eq_nil {r : Route} (h : r.held = []) : r.Stamped :=
  stamped_iff.mpr (by simp [h])

@[simp] lemma held_setRouteId (v : Int64) (r : Route) : (r.setRouteId v).held = r.held := by
  cases r <;> rfl

@[simp] lemma routeId_setRouteId (v : Int64) (r : Route) : (r.setRouteId v).routeId = v := by
  cases r <;> rfl

/-- **When a route with a new id is stamped**: it holds no routes, or its id is not new. -/
theorem stamped_setRouteId_iff {r : Route} (h : r.Stamped) (v : Int64) :
    (r.setRouteId v).Stamped ↔ r.held = [] ∨ r.routeId = v := by
  rw [stamped_iff, held_setRouteId, routeId_setRouteId]
  constructor
  · intro hall
    by_cases hnil : r.held = []
    · exact .inl hnil
    · obtain ⟨h', hh'⟩ := List.exists_mem_of_ne_nil _ hnil
      exact .inr ((stamped_iff.mp h h' hh').1.symm.trans (hall h' hh').1)
  · rintro (hnil | rfl)
    · simp [hnil]
    · exact stamped_iff.mp h

/-- **When a slip that has taken a route is stamped**: the route holds no routes, or has had the
slip's id. -/
theorem stamped_addRoute_iff {slip : DynamicRoutingSlip} {route : Route}
    (hslip : (Route.routingSlip slip).Stamped) (hroute : route.Stamped) :
    (Route.routingSlip (slip.addRoute route)).Stamped ↔
      route.held = [] ∨ route.routeId = slip.meta.routeId := by
  have hheld : (Route.routingSlip (slip.addRoute route)).held =
      route.setRouteId slip.meta.routeId :: (Route.routingSlip slip).held := rfl
  rw [stamped_iff, hheld, List.forall_mem_cons, routeId_setRouteId, stamped_setRouteId_iff hroute]
  exact ⟨fun h => h.1.2, fun h => ⟨⟨rfl, h⟩, stamped_iff.mp hslip⟩⟩

/-- `NextRoute` moves a route from the stack, at most. -/
lemma stamped_nextRoute {slip : DynamicRoutingSlip} (h : (Route.routingSlip slip).Stamped) :
    (Route.routingSlip slip.nextRoute.1).Stamped := by
  obtain ⟨m, routes, current⟩ := slip
  have hall := stamped_iff.mp h
  refine stamped_iff.mpr fun r hr => ?_
  cases routes with
  | nil => cases hr
  | cons route routes =>
    refine hall r ?_
    rcases List.mem_append.mp hr with hr | hr
    · exact List.mem_append_left _ (List.mem_cons_of_mem _ hr)
    · obtain rfl := List.mem_singleton.mp hr
      exact List.mem_append_left _ List.mem_cons_self

/-- `CurrentRoute` does what `NextRoute` does, or nothing. -/
lemma stamped_currentRoute {slip : DynamicRoutingSlip} (h : (Route.routingSlip slip).Stamped) :
    (Route.routingSlip slip.currentRoute.1).Stamped := by
  unfold DynamicRoutingSlip.currentRoute
  split
  · exact stamped_nextRoute h
  · exact h

end Route

namespace DynamicRoutingSlip

@[simp] lemma meta_addRoute (slip : DynamicRoutingSlip) (route : Route) :
    (slip.addRoute route).meta = slip.meta := rfl

@[simp] lemma meta_nextRoute (slip : DynamicRoutingSlip) : slip.nextRoute.1.meta = slip.meta := by
  unfold nextRoute
  split <;> rfl

@[simp] lemma meta_currentRoute (slip : DynamicRoutingSlip) :
    slip.currentRoute.1.meta = slip.meta := by
  unfold currentRoute
  split
  · exact slip.meta_nextRoute
  · rfl

end DynamicRoutingSlip

/-! ## Slips inside slips -/

/-- The way from a slip to a route it holds: its current route, or one on its stack. -/
inductive Hop where
  | current
  | stacked (i : ℕ)
  deriving DecidableEq, Repr

namespace Route

/-- The slip that a route is: `dynamic_cast<DynamicRoutingSlip*>`. -/
def asSlip : Route → Option DynamicRoutingSlip
  | .routingSlip slip => some slip
  | _ => none

/-- The route that a hop leads to. -/
def inside : Route → Hop → Option Route
  | .routingSlip slip, .current => slip.current
  | .routingSlip slip, .stacked i => slip.routes[i]?
  | _, _ => none

/-- A route whose held route, where a hop leads to, is changed. -/
def setInside (new : Route) : Route → Hop → Route
  | .routingSlip slip, .current => .routingSlip { slip with current := some new }
  | .routingSlip slip, .stacked i => .routingSlip { slip with routes := slip.routes.set i new }
  | r, _ => r

/-- The route that some hops lead to. -/
def atPlace : List Hop → Route → Option Route
  | [], r => some r
  | hop :: place, r => (r.inside hop).bind fun h => atPlace place h

/-- A route in which the route that some hops lead to is changed. -/
def setAt (new : Route) : List Hop → Route → Route
  | [], _ => new
  | hop :: place, r =>
    match r.inside hop with
    | some h => setInside (setAt new place h) r hop
    | none => r

/-- Only slips are slips. -/
lemma asSlip_eq_some {r : Route} {slip : DynamicRoutingSlip} (h : r.asSlip = some slip) :
    r = .routingSlip slip := by
  cases r with
  | routingSlip slip' => rw [Option.some.inj h]
  | simple _ => cases h
  | simpleExternal _ => cases h
  | relayedExternal _ => cases h

/-- A hop leads to a route that is held. -/
lemma mem_held_of_inside {r h : Route} {hop : Hop} (hinside : r.inside hop = some h) :
    h ∈ r.held := by
  cases r with
  | routingSlip slip =>
    cases hop with
    | current => exact List.mem_append_right _ (Option.mem_toList.mpr hinside)
    | stacked i => exact List.mem_append_left _ (List.mem_of_getElem? hinside)
  | simple _ => cases hinside
  | simpleExternal _ => cases hinside
  | relayedExternal _ => cases hinside

/-- What is held after a change: the new route, and some of those before it. -/
lemma held_setInside {r h : Route} {hop : Hop} (hinside : r.inside hop = some h) (new : Route) :
    new ∈ (setInside new r hop).held ∧
      (∀ h' ∈ (setInside new r hop).held, h' = new ∨ h' ∈ r.held) ∧
      (setInside new r hop).routeId = r.routeId := by
  cases r with
  | routingSlip slip =>
    cases hop with
    | current =>
      refine ⟨List.mem_append_right _ (by simp), fun h' hh' => ?_, rfl⟩
      rcases List.mem_append.mp hh' with hh' | hh'
      · exact .inr (List.mem_append_left _ hh')
      · exact .inl (List.mem_singleton.mp hh')
    | stacked i =>
      obtain ⟨hi, -⟩ := List.getElem?_eq_some_iff.mp hinside
      refine ⟨List.mem_append_left _ (List.mem_set hi new), fun h' hh' => ?_, rfl⟩
      rcases List.mem_append.mp hh' with hh' | hh'
      · exact (List.mem_or_eq_of_mem_set hh').symm.imp_right (List.mem_append_left _)
      · exact .inr (List.mem_append_right _ hh')
  | simple _ => cases hinside
  | simpleExternal _ => cases hinside
  | relayedExternal _ => cases hinside

/-- The routes inside a stamped route are stamped. -/
lemma stamped_atPlace {place : List Hop} {r old : Route} (h : r.Stamped)
    (hold : atPlace place r = some old) : old.Stamped := by
  induction place generalizing r with
  | nil =>
    obtain rfl := Option.some.inj hold
    exact h
  | cons hop place ih =>
    obtain ⟨child, hchild, hold⟩ := Option.bind_eq_some_iff.mp hold
    exact ih (stamped_iff.mp h child (mem_held_of_inside hchild)).2 hold

/-- **A change inside a stamped route** that keeps the id there: the whole is stamped exactly when
the new part is.

**Proof sketch.** By induction on the hops. The changed route is held in place of one with the same
id, the others are as before, and the id of what holds them stays. -/
theorem stamped_setAt {place : List Hop} {r old new : Route} (h : r.Stamped)
    (hold : atPlace place r = some old) (hid : new.routeId = old.routeId) :
    ((setAt new place r).Stamped ↔ new.Stamped) ∧ (setAt new place r).routeId = r.routeId := by
  induction place generalizing r with
  | nil =>
    obtain rfl := Option.some.inj hold
    exact ⟨Iff.rfl, hid⟩
  | cons hop place ih =>
    obtain ⟨child, hchild, hold⟩ := Option.bind_eq_some_iff.mp hold
    obtain ⟨hchildId, hchildStamped⟩ := stamped_iff.mp h child (mem_held_of_inside hchild)
    obtain ⟨hiff, hsame⟩ := ih hchildStamped hold
    obtain ⟨hnew, hothers, hr⟩ := held_setInside hchild (setAt new place child)
    have hset : setAt new (hop :: place) r = setInside (setAt new place child) r hop := by
      rw [setAt, hchild]
    rw [hset, ← hiff]
    refine ⟨⟨fun hstamped => (stamped_iff.mp hstamped _ hnew).2, fun hstamped => ?_⟩, hr⟩
    refine stamped_iff.mpr fun h' hh' => ?_
    rw [hr]
    rcases hothers h' hh' with rfl | hh'
    · exact ⟨hsame.trans hchildId, hstamped⟩
    · exact stamped_iff.mp h h' hh'

end Route

/-! ## Programs that build and walk slips -/

/-- The routes that a program owns, each by the number of the `std::unique_ptr<Route>` that holds
it. -/
abbrev Owned := ℕ → Option Route

/-- A call of the program. A slip that is called is owned, or it is inside an owned route: the
program has kept a pointer to it, such as `NextRoute` and `CurrentRoute` return. -/
inductive SlipCall where
  /-- `x` becomes a newly constructed route. -/
  | construct (x : ℕ) (route : Route)
  /-- `AddRoute(std::move(y))` on the slip at a place in `x`. -/
  | addRoute (x : ℕ) (place : List Hop) (y : ℕ)
  /-- `NextRoute()` on the slip at a place in `x`. -/
  | nextRoute (x : ℕ) (place : List Hop)
  /-- `CurrentRoute()` on the slip at a place in `x`. -/
  | currentRoute (x : ℕ) (place : List Hop)
  /-- `y` becomes a clone of the route at a place in `x`. -/
  | clone (x : ℕ) (place : List Hop) (y : ℕ)

namespace Owned

/-- A program that owns nothing yet. -/
def empty : Owned := fun _ => none

/-- A call on the slip at a place in `x`, with what the call makes of the slip. -/
def callAt (s : Owned) (x : ℕ) (place : List Hop) (f : DynamicRoutingSlip → DynamicRoutingSlip) :
    Option Owned := do
  let outer ← s x
  let slip ← (← Route.atPlace place outer).asSlip
  some (Function.update s x (some (Route.setAt (.routingSlip (f slip)) place outer)))

/-- What a call does. A newly constructed route holds none, whatever its other fields are; `y` owns
nothing any more when `AddRoute` begins. -/
def step (s : Owned) : SlipCall → Option Owned
  | .construct x route =>
    if route.held.isEmpty then some (Function.update s x (some route)) else none
  | .addRoute x place y => do
    let route ← s y
    callAt (Function.update s y none) x place (·.addRoute route)
  | .nextRoute x place => s.callAt x place (·.nextRoute.1)
  | .currentRoute x place => s.callAt x place (·.currentRoute.1)
  | .clone x place y => do
    let outer ← s x
    let route ← Route.atPlace place outer
    some (Function.update s y (some route.clone))

/-- All routes of the program are stamped. -/
def Stamped (s : Owned) : Prop := ∀ x r, s x = some r → r.Stamped

/-- A route is added only where it holds no routes, or already has the id of the slip. -/
def Matches (s : Owned) : SlipCall → Prop
  | .addRoute x place y => ∀ receiver ∈ (s x).bind (Route.atPlace place), ∀ route ∈ s y,
      route.held = [] ∨ route.routeId = receiver.routeId
  | _ => True

/-- The condition can be decided. -/
instance decidableMatches (s : Owned) : ∀ call, Decidable (s.Matches call)
  | .addRoute x place y =>
    inferInstanceAs (Decidable (∀ receiver ∈ (s x).bind (Route.atPlace place), ∀ route ∈ s y,
      route.held = [] ∨ route.routeId = receiver.routeId))
  | .construct _ _ | .nextRoute _ _ | .currentRoute _ _ | .clone _ _ _ => isTrue trivial

/-- Assigning to `x` in a stamped program. -/
lemma stamped_update_iff {s : Owned} (h : s.Stamped) (x : ℕ) (o : Option Route) :
    Stamped (Function.update s x o) ↔ ∀ r, o = some r → r.Stamped := by
  rw [Stamped, Function.forall_update_iff s fun _ o => ∀ r, o = some r → r.Stamped]
  exact and_iff_left fun z _ => h z

/-- **What a call on a slip does**: the program is stamped exactly when the slip is after it. -/
theorem stamped_callAt {s t : Owned} {x : ℕ} {place : List Hop}
    {f : DynamicRoutingSlip → DynamicRoutingSlip} (h : s.Stamped)
    (hf : ∀ slip, (f slip).meta = slip.meta) (ht : s.callAt x place f = some t) :
    ∃ outer slip, s x = some outer ∧ Route.atPlace place outer = some (.routingSlip slip) ∧
      (Route.routingSlip slip).Stamped ∧ (t.Stamped ↔ (Route.routingSlip (f slip)).Stamped) := by
  obtain ⟨outer, houter, ht⟩ := Option.bind_eq_some_iff.mp ht
  obtain ⟨receiver, hreceiver, ht⟩ := Option.bind_eq_some_iff.mp ht
  obtain ⟨slip, hslip, ht⟩ := Option.bind_eq_some_iff.mp ht
  obtain rfl := Option.some.inj ht
  obtain rfl := Route.asSlip_eq_some hslip
  have hid : (Route.routingSlip (f slip)).routeId = (Route.routingSlip slip).routeId :=
    congrArg RouteMeta.routeId (hf slip)
  refine ⟨outer, slip, houter, hreceiver, Route.stamped_atPlace (h x outer houter) hreceiver, ?_⟩
  rw [stamped_update_iff h, ← (Route.stamped_setAt (h x outer houter) hreceiver hid).1]
  simp

/-- A call that keeps slips stamped keeps the program stamped. -/
lemma stamped_of_callAt {s t : Owned} {x : ℕ} {place : List Hop}
    {f : DynamicRoutingSlip → DynamicRoutingSlip} (h : s.Stamped)
    (hf : ∀ slip, (f slip).meta = slip.meta)
    (hstamped : ∀ slip, (Route.routingSlip slip).Stamped → (Route.routingSlip (f slip)).Stamped)
    (ht : s.callAt x place f = some t) : t.Stamped := by
  obtain ⟨_, slip, -, -, hslip, hiff⟩ := stamped_callAt h hf ht
  exact hiff.mpr (hstamped slip hslip)

/-- **When `AddRoute` keeps the program stamped**: exactly when it meets the condition. -/
theorem stamped_addRoute {s t : Owned} {x y : ℕ} {place : List Hop} (h : s.Stamped)
    (ht : s.step (.addRoute x place y) = some t) :
    t.Stamped ↔ s.Matches (.addRoute x place y) := by
  obtain ⟨route, hroute, ht⟩ := Option.bind_eq_some_iff.mp ht
  have hmoved : Stamped (Function.update s y none) :=
    (stamped_update_iff h y none).mpr fun r hr => absurd hr (by simp)
  obtain ⟨outer, slip, houter, hslip, hslipStamped, hiff⟩ :=
    stamped_callAt hmoved (fun slip => slip.meta_addRoute route) ht
  have hxy : x ≠ y := by
    rintro rfl
    rw [Function.update_self] at houter
    cases houter
  rw [Function.update_of_ne hxy] at houter
  rw [hiff, Route.stamped_addRoute_iff hslipStamped (h y route hroute)]
  simp [Matches, houter, hslip, hroute, Route.routeId, Route.meta]

/-- **When a call keeps the program stamped.** -/
theorem stamped_step_iff {s t : Owned} {call : SlipCall} (h : s.Stamped)
    (ht : s.step call = some t) : t.Stamped ↔ s.Matches call := by
  cases call with
  | construct x route =>
    rw [step] at ht
    split_ifs at ht with hheld
    obtain rfl := Option.some.inj ht
    refine iff_of_true ((stamped_update_iff h x _).mpr ?_) trivial
    rintro _ ⟨⟩
    exact Route.stamped_of_held_eq_nil (List.isEmpty_iff.mp hheld)
  | addRoute x place y => exact stamped_addRoute h ht
  | nextRoute x place =>
    exact iff_of_true (stamped_of_callAt h (fun slip => slip.meta_nextRoute)
      (fun _ => Route.stamped_nextRoute) ht) trivial
  | currentRoute x place =>
    exact iff_of_true (stamped_of_callAt h (fun slip => slip.meta_currentRoute)
      (fun _ => Route.stamped_currentRoute) ht) trivial
  | clone x place y =>
    obtain ⟨outer, houter, ht⟩ := Option.bind_eq_some_iff.mp ht
    obtain ⟨route, hroute, ht⟩ := Option.bind_eq_some_iff.mp ht
    obtain rfl := Option.some.inj ht
    refine iff_of_true ((stamped_update_iff h y _).mpr ?_) trivial
    rintro _ ⟨⟩
    rw [Route.clone_eq]
    exact Route.stamped_atPlace (h x outer houter) hroute

/-- **In which runs all routes are stamped**, in every state: exactly in those in which a route that
holds routes is added only to a slip whose id it has.

**Proof sketch.** A program that owns nothing is stamped, and a call keeps a stamped program so
exactly when it meets the condition (`stamped_step_iff`): the routes inside what is added keep the
id it had before, and everything else is as it was. -/
theorem stamped_iff_meets {calls : List SlipCall} {s : Owned}
    (h : Transition.exec step empty calls = some s) :
    (∀ before, before <+: calls → ∀ t, Transition.exec step empty before = some t → t.Stamped) ↔
      Transition.Meets step Matches empty calls := by
  refine Transition.invariant_iff_meets ?_ (fun _ _ _ => stamped_step_iff) h
  intro x r hr
  cases hr

/-- A slip gets a route after it has been added to another slip, and before. -/
def fillInside (after : Bool) : List SlipCall :=
  let inner : Route := .routingSlip ⟨{ routeId := 1 }, [], none⟩
  let outer : Route := .routingSlip ⟨{ routeId := 2 }, [], none⟩
  let service : Route := .simple ⟨{ service := some (str "Mail"), routeId := 3 }⟩
  [.construct 0 outer, .construct 1 inner, .construct 2 service] ++
    if after then [.addRoute 0 [] 1, .nextRoute 0 [], .addRoute 0 [.current] 2]
    else [.addRoute 1 [] 2, .addRoute 0 [] 1, .nextRoute 0 []]

/-- `stamped_iff_meets` for a slip that gets its route inside another slip. -/
theorem stamped_iff_meets_fillInside :
    ∃ s, Transition.exec step empty (fillInside true) = some s ∧ s.Stamped := by
  have hrun : (Transition.exec step empty (fillInside true)).isSome = true := by decide
  have hmeets : Transition.Meets step Matches empty (fillInside true) := by decide
  obtain ⟨s, hs⟩ := Option.isSome_iff_exists.mp hrun
  exact ⟨s, hs, (stamped_iff_meets hs).mpr hmeets _ (List.prefix_refl _) s hs⟩

/-- A slip that gets its route before it is added to another slip has another id afterwards than
its route. -/
theorem filled_slip_not_stamped :
    ¬ ∀ calls s, Transition.exec step empty calls = some s → s.Stamped := by
  intro hall
  have hbad : ((Transition.exec step empty (fillInside false)).bind fun s =>
      (s 0).bind fun outer => (Route.atPlace [.current] outer).bind fun inner =>
        (inner.inside (.stacked 0)).map fun route => (inner.routeId, route.routeId)) =
          some (2, 1) := by
    decide
  obtain ⟨s, hs, hbad⟩ := Option.bind_eq_some_iff.mp hbad
  obtain ⟨outer, houter, hbad⟩ := Option.bind_eq_some_iff.mp hbad
  obtain ⟨inner, hinner, hbad⟩ := Option.bind_eq_some_iff.mp hbad
  obtain ⟨route, hroute, hbad⟩ := Option.map_eq_some_iff.mp hbad
  have hinnerStamped := Route.stamped_atPlace (hall _ s hs 0 outer houter) hinner
  have hsame := (Route.stamped_iff.mp hinnerStamped route (Route.mem_held_of_inside hroute)).1
  rw [Prod.mk.injEq, hsame] at hbad
  exact absurd (hbad.1.symm.trans hbad.2) (by decide)

end Owned

end RaCommon
