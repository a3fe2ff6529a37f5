import RaCommon.Route.Route

set_option relaxedAutoImplicit false
set_option autoImplicit false

/-!
# Routing slips (`route/route.hpp`, `route/dynamic_routing_slip.hpp`)

A routing slip is a stack of routes that is walked one hop at a time, and is itself a route, so
that slips nest to any depth.

## Main definitions

* `RaCommon.Route`, `RaCommon.DynamicRoutingSlip` — routes of any class, and slips, with `toJson`,
  `routeFromJson`, `slipFromJson` and `clone`.
* `RaCommon.DynamicRoutingSlip.addRoute`, `RaCommon.DynamicRoutingSlip.nextRoute`,
  `RaCommon.DynamicRoutingSlip.currentRoute` — walking a slip.
* `RaCommon.Route.publicKeys`, `RaCommon.Route.reloaded` — the public keys inside a route, and
  what the route becomes when it is written and read.

## Main results

* `RaCommon.Route.clone_eq` — a clone is structurally equal.
* `RaCommon.Route.fromJson_toJson`, `RaCommon.DynamicRoutingSlip.fromJson_toJson` — routes and
  slips are read back, up to what happens to their public keys.
* `RaCommon.Route.reloaded_eq`, `RaCommon.DynamicRoutingSlip.reloaded_eq` — where all attributes
  are objects they are read back exactly.
* `RaCommon.Route.clone_and_reload` — the direct copy and the JSON round trip agree.
-/

namespace RaCommon

/-! ## Routes and routing slips -/

mutual

/-- `Route`: one constructor for each class. -/
inductive Route where
  | simple (r : SimpleRoute)
  | routingSlip (slip : DynamicRoutingSlip)
  | simpleExternal (r : SimpleExternalRoute)
  | relayedExternal (r : RelayedExternalRoute)

/-- `DynamicRoutingSlip`: the first route of `routes` is the front of the deque. -/
structure DynamicRoutingSlip where
  «meta» : RouteMeta
  routes : List Route
  current : Option Route

end

namespace Route

/-- `Route::Meta`. -/
def «meta» : Route → RouteMeta
  | .simple r => r.meta
  | .routingSlip slip => slip.meta
  | .simpleExternal r => r.meta
  | .relayedExternal r => r.base.meta

/-- `Route::route_id`. -/
def routeId (r : Route) : Int64 := r.meta.routeId

/-- `Route::set_route_id`. -/
def setRouteId (v : Int64) : Route → Route
  | .simple r => .simple { r with «meta» := { r.meta with routeId := v } }
  | .routingSlip slip => .routingSlip { slip with «meta» := { slip.meta with routeId := v } }
  | .simpleExternal r => .simpleExternal { r with «meta» := { r.meta with routeId := v } }
  | .relayedExternal r =>
    .relayedExternal { r with base := { r.base with «meta» := { r.base.meta with routeId := v } } }

end Route

/-! ## Clones -/

mutual

/-- `Route::Clone`. -/
def Route.clone : Route → Route
  | .simple r => .simple ⟨r.meta⟩
  | .routingSlip slip => .routingSlip slip.clone
  | .simpleExternal r => .simpleExternal r
  | .relayedExternal r => .relayedExternal r

/-- `DynamicRoutingSlip::Clone`. -/
def DynamicRoutingSlip.clone : DynamicRoutingSlip → DynamicRoutingSlip
  | ⟨m, routes, current⟩ => ⟨m, Route.cloneList routes, Route.cloneOption current⟩

/-- The loop of `DynamicRoutingSlip::Clone` over the routes. -/
def Route.cloneList : List Route → List Route
  | [] => []
  | r :: rs => r.clone :: Route.cloneList rs

/-- `if (current_) slip->current_ = current_->Clone();` -/
def Route.cloneOption : Option Route → Option Route
  | none => none
  | some r => some r.clone

end

mutual

/-- **A clone is structurally equal.** -/
@[simp] theorem Route.clone_eq : ∀ r : Route, r.clone = r
  | .simple _ => rfl
  | .routingSlip slip => by rw [Route.clone, slip.clone_eq]
  | .simpleExternal _ => rfl
  | .relayedExternal _ => rfl

theorem DynamicRoutingSlip.clone_eq : ∀ slip : DynamicRoutingSlip, slip.clone = slip
  | ⟨m, routes, current⟩ => by
    rw [DynamicRoutingSlip.clone, Route.cloneList_eq routes, Route.cloneOption_eq current]

lemma Route.cloneList_eq : ∀ rs : List Route, Route.cloneList rs = rs
  | [] => rfl
  | r :: rs => by rw [Route.cloneList, r.clone_eq, Route.cloneList_eq rs]

lemma Route.cloneOption_eq : ∀ o : Option Route, Route.cloneOption o = o
  | none => rfl
  | some r => by rw [Route.cloneOption, r.clone_eq]

end

/-! ## Walking a slip -/

namespace DynamicRoutingSlip

/-- The constructor of `DynamicRoutingSlip`, with the default for its argument. -/
def new (d : Draw) : DynamicRoutingSlip := ⟨.new d none none, [], none⟩

/-- `DynamicRoutingSlip::AddRoute`. -/
def addRoute (slip : DynamicRoutingSlip) (route : Route) : DynamicRoutingSlip :=
  { slip with routes := route.setRouteId slip.meta.routeId :: slip.routes }

/-- `DynamicRoutingSlip::NextRoute`: the slip afterwards, and the route that is returned. -/
def nextRoute (slip : DynamicRoutingSlip) : DynamicRoutingSlip × Option Route :=
  match slip.routes with
  | [] => ({ slip with current := none }, none)
  | route :: routes => ({ slip with routes, current := some route }, some route)

/-- `NextRoute` on an empty slip. -/
lemma nextRoute_of_nil {slip : DynamicRoutingSlip} (h : slip.routes = []) :
    slip.nextRoute = ({ slip with current := none }, none) := by
  unfold nextRoute
  split
  · rfl
  · next heq => exact absurd (heq.symm.trans h) (List.cons_ne_nil _ _)

/-- `NextRoute` on a slip with routes. -/
lemma nextRoute_of_cons {slip : DynamicRoutingSlip} {route : Route} {routes : List Route}
    (h : slip.routes = route :: routes) :
    slip.nextRoute = ({ slip with routes, current := some route }, some route) := by
  unfold nextRoute
  split
  · next heq => exact absurd (h.symm.trans heq) (List.cons_ne_nil _ _)
  · next heq =>
    cases heq.symm.trans h
    rfl

/-- `DynamicRoutingSlip::CurrentRoute`. -/
def currentRoute (slip : DynamicRoutingSlip) : DynamicRoutingSlip × Option Route :=
  match slip.current with
  | none => slip.nextRoute
  | some route => (slip, some route)

end DynamicRoutingSlip

/-! ## Writing -/

mutual

/-- `Route::ToJson`. -/
def Route.toJson : Route → Json
  | .simple r => r.toJson
  | .routingSlip slip => slip.toJson
  | .simpleExternal r => r.toJson
  | .relayedExternal r => r.toJson

/-- `DynamicRoutingSlip::ToJson`. -/
def DynamicRoutingSlip.toJson : DynamicRoutingSlip → Json
  | ⟨m, routes, current⟩ =>
    .object <| Fields.of
        [(str "type", .string (str "routing_slip")), (str "meta", m.toJson),
          (str "routes", .array (Route.listToJson routes))]
      |>.setOpt (str "current_route") (Route.optionToJson current) id

/-- The loop of `DynamicRoutingSlip::ToJson` over the routes. -/
def Route.listToJson : List Route → List Json
  | [] => []
  | r :: rs => r.toJson :: Route.listToJson rs

/-- `current_->ToJson()`, if there is one. -/
def Route.optionToJson : Option Route → Option Json
  | none => none
  | some r => some r.toJson

end

/-! ## Reading -/

mutual

/-- `RouteFromJson`. -/
def routeFromJson (draws : Draws) (data : Json) : Outcome Route := do
  let type ← (← data.at (str "type")).getString
  if type = str "simple" then
    .ok (.simple (← SimpleRoute.fromJson draws.here data))
  else if type = str "routing_slip" then
    .ok (.routingSlip (← slipFromJson draws data))
  else if type = str "simple_external" then
    .ok (.simpleExternal (← SimpleExternalRoute.fromJson draws.here data))
  else if type = str "relayed_external" then
    .ok (.relayedExternal (← RelayedExternalRoute.fromJson draws.here data))
  else .error (.runtimeError (str "unknown route type: " ++ type))
termination_by 2 * sizeOf data + 1

/-- `DynamicRoutingSlip::FromJson`. -/
def slipFromJson (draws : Draws) (data : Json) : Outcome DynamicRoutingSlip := do
  let «meta» ← RouteMeta.fromMember draws.here data
  let routes ←
    (match _h : data.find? (str "routes") with
    | none => .ok []
    | some v => routesFromJson (draws.nested 1) v.elems : Outcome (List Route))
  let current ←
    (match _h : data.find? (str "current_route") with
    | none => .ok none
    | some v => do .ok (some (← routeFromJson (draws.nested 0) v)) : Outcome (Option Route))
  .ok { «meta», routes, current }
termination_by 2 * sizeOf data
decreasing_by
  · have := Json.sizeOf_of_find? _h
    have := Json.sizeOf_elems v
    omega
  · have := Json.sizeOf_of_find? _h
    omega

/-- The loop of `DynamicRoutingSlip::FromJson` over the routes. -/
def routesFromJson (draws : Draws) : List Json → Outcome (List Route)
  | [] => .ok []
  | v :: vs => do
    let r ← routeFromJson (draws.nested 0) v
    .ok (r :: (← routesFromJson (draws.nested 1) vs))
termination_by l => 2 * sizeOf l + 1

end

/-- What `slipFromJson` reads, without the bounds its recursion needs. -/
lemma slipFromJson_eq (draws : Draws) (data : Json) :
    slipFromJson draws data = (do
      let «meta» ← RouteMeta.fromMember draws.here data
      let routes ← Json.readOr (fun v => routesFromJson (draws.nested 1) v.elems) []
        (data.find? (str "routes"))
      let current ← Json.readOption (routeFromJson (draws.nested 0))
        (data.find? (str "current_route"))
      .ok { «meta», routes, current }) := by
  rw [slipFromJson]
  congr 1
  funext «meta»
  congr 1
  · split
    · next h => rw [h, Json.readOr]
    · next h => rw [h, Json.readOr]
  · funext routes
    congr 1
    split
    · next h => rw [h, Json.readOption]
    · next h => rw [h, Json.readOption]

/-! ## Reading what was written -/

mutual

/-- The public keys inside a route. -/
def Route.publicKeys : Route → List PublicKey
  | .simple _ => []
  | .routingSlip slip => slip.publicKeys
  | .simpleExternal r => r.publicKeys
  | .relayedExternal r => r.publicKeys

/-- The public keys inside a slip. -/
def DynamicRoutingSlip.publicKeys : DynamicRoutingSlip → List PublicKey
  | ⟨_, routes, current⟩ => Route.listPublicKeys routes ++ Route.optionPublicKeys current

/-- The public keys inside some routes. -/
def Route.listPublicKeys : List Route → List PublicKey
  | [] => []
  | r :: rs => r.publicKeys ++ Route.listPublicKeys rs

/-- The public keys inside a route that may be absent. -/
def Route.optionPublicKeys : Option Route → List PublicKey
  | none => []
  | some r => r.publicKeys

end

mutual

/-- What a route becomes when it is written and read. -/
def Route.reloaded : Route → Route
  | .simple r => .simple r
  | .routingSlip slip => .routingSlip slip.reloaded
  | .simpleExternal r => .simpleExternal r.reloaded
  | .relayedExternal r => .relayedExternal r.reloaded

/-- What a slip becomes when it is written and read. -/
def DynamicRoutingSlip.reloaded : DynamicRoutingSlip → DynamicRoutingSlip
  | ⟨m, routes, current⟩ => ⟨m, Route.reloadedList routes, Route.reloadedOption current⟩

/-- What some routes become when they are written and read. -/
def Route.reloadedList : List Route → List Route
  | [] => []
  | r :: rs => r.reloaded :: Route.reloadedList rs

/-- What a route that may be absent becomes when it is written and read. -/
def Route.reloadedOption : Option Route → Option Route
  | none => none
  | some r => some r.reloaded

end

mutual

/-- **A route is read back**, up to what happens to its public keys.

**Proof sketch.** By recursion on the route. The tag that `toJson` writes selects the class that
reads; of a slip, the routes and the current route are read back by recursion. -/
@[simp] theorem Route.fromJson_toJson (draws : Draws) :
    ∀ r : Route, routeFromJson draws r.toJson = .ok r.reloaded
  | .simple r => by
    rw [routeFromJson, Route.toJson, SimpleRoute.fromJson_toJson]
    simp [SimpleRoute.toJson, Route.reloaded]
  | .routingSlip slip => by
    rw [routeFromJson, Route.toJson, slip.fromJson_toJson draws]
    obtain ⟨m, routes, current⟩ := slip
    simp [DynamicRoutingSlip.toJson, Route.reloaded]
  | .simpleExternal r => by
    rw [routeFromJson, Route.toJson, SimpleExternalRoute.fromJson_toJson]
    simp [SimpleExternalRoute.toJson, Route.reloaded]
  | .relayedExternal r => by
    rw [routeFromJson, Route.toJson, RelayedExternalRoute.fromJson_toJson]
    simp [RelayedExternalRoute.toJson, Route.reloaded]

/-- **A routing slip is read back**, up to what happens to its public keys. -/
@[simp] theorem DynamicRoutingSlip.fromJson_toJson (draws : Draws) :
    ∀ slip : DynamicRoutingSlip, slipFromJson draws slip.toJson = .ok slip.reloaded
  | ⟨m, routes, current⟩ => by
    rw [slipFromJson_eq, DynamicRoutingSlip.toJson]
    simp only [Json.find?_object]
    simp [RouteMeta.fromMember, DynamicRoutingSlip.reloaded, Json.elems,
      Route.listFromJson_toJson (draws.nested 1) routes,
      Route.optionFromJson_toJson (draws.nested 0) current]

/-- The loop over the routes reads back what the loop over the routes wrote. -/
lemma Route.listFromJson_toJson (draws : Draws) :
    ∀ rs : List Route, routesFromJson draws (Route.listToJson rs) = .ok (Route.reloadedList rs)
  | [] => by rw [Route.listToJson, routesFromJson, Route.reloadedList]
  | r :: rs => by
    rw [Route.listToJson, routesFromJson, r.fromJson_toJson (draws.nested 0),
      Route.listFromJson_toJson (draws.nested 1) rs, Route.reloadedList]
    rfl

/-- A route that may be absent is read back. -/
lemma Route.optionFromJson_toJson (draws : Draws) :
    ∀ o : Option Route, Json.readOption (routeFromJson draws) (Route.optionToJson o) =
      .ok (Route.reloadedOption o)
  | none => by rw [Route.optionToJson, Json.readOption, Route.reloadedOption]
  | some r => by
    rw [Route.optionToJson, Json.readOption, r.fromJson_toJson draws, Route.reloadedOption]
    rfl

end

mutual

/-- **With attributes that are objects** a route is read back exactly. -/
theorem Route.reloaded_eq :
    ∀ r : Route, (∀ pk ∈ r.publicKeys, pk.attributes.isObject = true) → r.reloaded = r
  | .simple _, _ => rfl
  | .routingSlip slip, h => by
    rw [Route.reloaded, slip.reloaded_eq h]
  | .simpleExternal r, h => by
    rw [Route.reloaded, r.reloaded_eq h]
  | .relayedExternal r, h => by
    rw [Route.reloaded, r.reloaded_eq h]

/-- With attributes that are objects a slip is read back exactly. -/
theorem DynamicRoutingSlip.reloaded_eq : ∀ slip : DynamicRoutingSlip,
    (∀ pk ∈ slip.publicKeys, pk.attributes.isObject = true) → slip.reloaded = slip
  | ⟨m, routes, current⟩, h => by
    obtain ⟨hroutes, hcurrent⟩ := List.forall_mem_append.mp h
    rw [DynamicRoutingSlip.reloaded, Route.reloadedList_eq routes hroutes,
      Route.reloadedOption_eq current hcurrent]

lemma Route.reloadedList_eq : ∀ rs : List Route,
    (∀ pk ∈ Route.listPublicKeys rs, pk.attributes.isObject = true) → Route.reloadedList rs = rs
  | [], _ => rfl
  | r :: rs, h => by
    obtain ⟨hr, hrs⟩ := List.forall_mem_append.mp h
    rw [Route.reloadedList, r.reloaded_eq hr, Route.reloadedList_eq rs hrs]

lemma Route.reloadedOption_eq : ∀ o : Option Route,
    (∀ pk ∈ Route.optionPublicKeys o, pk.attributes.isObject = true) → Route.reloadedOption o = o
  | none, _ => rfl
  | some r, h => by
    rw [Route.reloadedOption, r.reloaded_eq h]

end

/-- Routes that are each read back exactly are together. -/
lemma Route.reloadedList_of_forall {rs : List Route} (h : ∀ r ∈ rs, r.reloaded = r) :
    Route.reloadedList rs = rs := by
  induction rs with
  | nil => rfl
  | cons r rs ih =>
    rw [Route.reloadedList, h r (by simp), ih fun r' hr' => h r' (by simp [hr'])]

/-- A slip whose routes are each read back exactly is so, too. -/
lemma DynamicRoutingSlip.reloaded_of_forall {slip : DynamicRoutingSlip}
    (hroutes : ∀ r ∈ slip.routes, r.reloaded = r)
    (hcurrent : ∀ r, slip.current = some r → r.reloaded = r) : slip.reloaded = slip := by
  obtain ⟨m, routes, current⟩ := slip
  have hoption : Route.reloadedOption current = current := by
    cases current with
    | none => rfl
    | some r => rw [Route.reloadedOption, hcurrent r rfl]
  rw [DynamicRoutingSlip.reloaded, Route.reloadedList_of_forall hroutes, hoption]

namespace Route

/-- An optional route that was written is read back. -/
@[simp] lemma readOption_route (draws : Draws) (o : Option Route) :
    Json.readOption (routeFromJson draws) (o.map toJson) = .ok (o.map reloaded) :=
  Json.readOption_map fun r _ => r.fromJson_toJson draws

/-- With attributes that are objects nothing changes in an optional route. -/
lemma map_reloaded_eq {o : Option Route}
    (h : ∀ pk ∈ o.toList.flatMap publicKeys, pk.attributes.isObject = true) :
    o.map reloaded = o := by
  cases o with
  | none => rfl
  | some r => rw [Option.map_some, reloaded_eq r (by simpa using h)]

/-- **The two copies of a route agree**: where the attributes of all public keys inside it are
objects, the direct copy of a route of any class and what is read from its JSON text are both
structurally equal to the route. -/
theorem clone_and_reload (draws : Draws) (r : Route)
    (hattributes : ∀ pk ∈ r.publicKeys, pk.attributes.isObject = true) :
    r.clone = r ∧ routeFromJson draws r.toJson = .ok r ∧
      routeFromJson draws r.toJson = .ok r.clone := by
  have hreload : routeFromJson draws r.toJson = .ok r := by
    rw [fromJson_toJson, reloaded_eq r hattributes]
  refine ⟨clone_eq r, hreload, ?_⟩
  rw [clone_eq, hreload]

/-- A slip on its way: ahead of it a slip that holds a relayed route and has a current one, behind
it an external route. -/
def nestedSlip : Route :=
  .routingSlip
    { «meta» := { routeId := 7 }
      routes := [.routingSlip
        { «meta» := { routeId := 7 }
          routes := [.relayedExternal
            { base := { «meta» := { routeId := 7 }, origination := some {} }, toPeer := some {} }]
          current := some (.simple ⟨{ service := some (str "Mail"), routeId := 8 }⟩) }]
      current := some (.simpleExternal { «meta» := { routeId := 7 }, destination := some {} }) }

/-- `nestedSlip` is copied in both ways. -/
theorem clone_and_reload_nestedSlip :
    nestedSlip.clone = nestedSlip ∧
      routeFromJson (fun _ => ⟨⟨List.replicate 16 0, rfl⟩, 0⟩) nestedSlip.toJson =
        .ok nestedSlip.clone := by
  have hkeys : nestedSlip.publicKeys = List.replicate 3 {} := rfl
  have h := clone_and_reload (fun _ => ⟨⟨List.replicate 16 0, rfl⟩, 0⟩) nestedSlip
    fun pk hpk => by
      rw [hkeys] at hpk
      rw [List.eq_of_mem_replicate hpk]
      rfl
  exact ⟨h.1, h.2.2⟩

end Route

end RaCommon
