import RaCommon.Identity.Did
import RaCommon.Util.RandomUtil

set_option relaxedAutoImplicit false
set_option autoImplicit false

/-!
# What routes are made of (`route/route_meta.hpp`, `route.hpp`, `external_route.hpp`)

The routes that are not routing slips: a simple one, one to an external peer, and one relayed
between peers.

## Main definitions

* `RaCommon.RouteMeta` — what every route has.
* `RaCommon.SimpleRoute`, `RaCommon.SimpleExternalRoute`, `RaCommon.RelayedExternalRoute` — the
  routes, with `toJson`, `fromJson` and the public keys inside them.

## Main results

* `RaCommon.RouteMeta.fromJson_toJson`, `RaCommon.SimpleRoute.fromJson_toJson`,
  `RaCommon.SimpleExternalRoute.fromJson_toJson`, `RaCommon.RelayedExternalRoute.fromJson_toJson` —
  all are read back, up to what happens to their public keys.
-/

namespace RaCommon

/-! ## Meta data -/

/-- `RouteMeta`. -/
structure RouteMeta where
  service : Option Str := none
  operation : Option Str := none
  routed : Bool := false
  routeId : Int64 := 0

namespace RouteMeta

/-- `RouteMeta::New`, with the id it draws. -/
def new (d : Draw) (service operation : Option Str) : RouteMeta :=
  ⟨service, operation, false, d.nextLong⟩

/-- `RouteMeta::ToJson`. -/
def toJson (m : RouteMeta) : Json :=
  .object <| Fields.of []
    |>.setOpt (str "service") m.service .string
    |>.setOpt (str "operation") m.operation .string
    |>.set (str "routed") (.boolean m.routed)
    |>.set (str "route_id") (.string (toText m.routeId.toInt))

/-- `RouteMeta::FromJson`. -/
def fromJson (data : Json) : Outcome RouteMeta := do
  let service ← data.optional (str "service") Json.getString
  let operation ← data.optional (str "operation") Json.getString
  let routed ← data.value (str "routed") Json.getBool false
  let routeId ← data.orDefault (str "route_id") (fun v => do stoll (← v.getString)) 0
  .ok ⟨service, operation, routed, routeId⟩

/-- **The meta data are read back.** -/
@[simp] theorem fromJson_toJson (m : RouteMeta) : fromJson m.toJson = .ok m := by
  simp [fromJson, toJson, stoll_toText]

/-- `data.contains("meta") ? RouteMeta::FromJson(data.at("meta")) : RouteMeta::New()`. -/
def fromMember (d : Draw) (data : Json) : Outcome RouteMeta :=
  data.orDefault (str "meta") fromJson (new d none none)

end RouteMeta

/-! ## Simple and external routes -/

/-- `SimpleRoute`. -/
structure SimpleRoute where
  «meta» : RouteMeta

namespace SimpleRoute

/-- `SimpleRoute::Of`. -/
def «of» (d : Draw) (service operation : Str) : SimpleRoute :=
  ⟨.new d (some service) (some operation)⟩

/-- `SimpleRoute::ToJson`. -/
def toJson (r : SimpleRoute) : Json :=
  .object <| Fields.of [(str "type", .string (str "simple")), (str "meta", r.meta.toJson)]

/-- `SimpleRoute::FromJson`. -/
def fromJson (d : Draw) (data : Json) : Outcome SimpleRoute := do
  .ok ⟨← RouteMeta.fromMember d data⟩

/-- **A simple route is read back.** -/
@[simp] theorem fromJson_toJson (d : Draw) (r : SimpleRoute) : fromJson d r.toJson = .ok r := by
  simp [fromJson, toJson, RouteMeta.fromMember]

end SimpleRoute

/-- `SimpleExternalRoute`. -/
structure SimpleExternalRoute where
  «meta» : RouteMeta
  origination : Option NetworkPeer := none
  destination : Option NetworkPeer := none
  sendContentOnly : Bool := false
  statusCode : Int32 := 0

namespace SimpleExternalRoute

/-- `SimpleExternalRoute::Of`. -/
def «of» (d : Draw) (service operation : Str) : SimpleExternalRoute :=
  { «meta» := .new d (some service) (some operation), sendContentOnly := true }

/-- `SimpleExternalRoute::ToJson`. -/
def toJson (r : SimpleExternalRoute) : Json :=
  .object <| Fields.of
      [(str "type", .string (str "simple_external")), (str "meta", r.meta.toJson)]
    |>.setOpt (str "origination") r.origination NetworkPeer.toJson
    |>.setOpt (str "destination") r.destination NetworkPeer.toJson
    |>.set (str "send_content_only") (.boolean r.sendContentOnly)
    |>.set (str "status_code") (Json.ofInt r.statusCode)

/-- `SimpleExternalRoute::FromJson`. -/
def fromJson (d : Draw) (data : Json) : Outcome SimpleExternalRoute := do
  let «meta» ← RouteMeta.fromMember d data
  let origination ← data.optional (str "origination") NetworkPeer.fromJson
  let destination ← data.optional (str "destination") NetworkPeer.fromJson
  let sendContentOnly ← data.value (str "send_content_only") Json.getBool false
  let statusCode ← data.value (str "status_code") Json.getInt 0
  .ok { «meta», origination, destination, sendContentOnly, statusCode }

/-- The public keys inside the route. -/
def publicKeys (r : SimpleExternalRoute) : List PublicKey :=
  (r.origination.toList ++ r.destination.toList).map (·.did.publicKey)

/-- What the route becomes when it is written and read. -/
def reloaded (r : SimpleExternalRoute) : SimpleExternalRoute :=
  { r with
    origination := r.origination.map NetworkPeer.reloaded
    destination := r.destination.map NetworkPeer.reloaded }

/-- With attributes that are objects nothing changes. -/
theorem reloaded_eq {r : SimpleExternalRoute}
    (h : ∀ pk ∈ r.publicKeys, pk.attributes.isObject = true) : r.reloaded = r := by
  rw [publicKeys, List.map_append] at h
  obtain ⟨horigination, hdestination⟩ := List.forall_mem_append.mp h
  rw [reloaded, NetworkPeer.map_reloaded_eq horigination, NetworkPeer.map_reloaded_eq hdestination]

/-- **An external route is read back**, up to what happens to its public keys. -/
@[simp] theorem fromJson_toJson (d : Draw) (r : SimpleExternalRoute) :
    fromJson d r.toJson = .ok r.reloaded := by
  simp [fromJson, toJson, RouteMeta.fromMember, reloaded]

end SimpleExternalRoute

/-- `RelayedExternalRoute`. -/
structure RelayedExternalRoute where
  base : SimpleExternalRoute
  fromPeer : Option NetworkPeer := none
  toPeer : Option NetworkPeer := none
  delayed : Bool := false
  minDelay : Int32 := 0
  maxDelay : Int32 := 0
  copy : Bool := false
  minCopies : Int32 := 0
  maxCopies : Int32 := 0
  sensitivity : Int32 := 0

namespace RelayedExternalRoute

/-- `RelayedExternalRoute::ToJson`. -/
def toJson (r : RelayedExternalRoute) : Json :=
  .object <| Fields.of
      [(str "type", .string (str "relayed_external")), (str "base", r.base.toJson)]
    |>.setOpt (str "from_peer") r.fromPeer NetworkPeer.toJson
    |>.setOpt (str "to_peer") r.toPeer NetworkPeer.toJson
    |>.set (str "delayed") (.boolean r.delayed)
    |>.set (str "min_delay") (Json.ofInt r.minDelay)
    |>.set (str "max_delay") (Json.ofInt r.maxDelay)
    |>.set (str "copy") (.boolean r.copy)
    |>.set (str "min_copies") (Json.ofInt r.minCopies)
    |>.set (str "max_copies") (Json.ofInt r.maxCopies)
    |>.set (str "sensitivity") (Json.ofInt r.sensitivity)

/-- `RelayedExternalRoute::FromJson`. -/
def fromJson (d : Draw) (data : Json) : Outcome RelayedExternalRoute := do
  let base ← data.orDefault (str "base") (SimpleExternalRoute.fromJson d)
    { «meta» := .new d none none }
  let fromPeer ← data.optional (str "from_peer") NetworkPeer.fromJson
  let toPeer ← data.optional (str "to_peer") NetworkPeer.fromJson
  let delayed ← data.value (str "delayed") Json.getBool false
  let minDelay ← data.value (str "min_delay") Json.getInt 0
  let maxDelay ← data.value (str "max_delay") Json.getInt 0
  let copy ← data.value (str "copy") Json.getBool false
  let minCopies ← data.value (str "min_copies") Json.getInt 0
  let maxCopies ← data.value (str "max_copies") Json.getInt 0
  let sensitivity ← data.value (str "sensitivity") Json.getInt 0
  .ok { base, fromPeer, toPeer, delayed, minDelay, maxDelay, copy, minCopies, maxCopies,
        sensitivity }

/-- The public keys inside the route. -/
def publicKeys (r : RelayedExternalRoute) : List PublicKey :=
  r.base.publicKeys ++ (r.fromPeer.toList ++ r.toPeer.toList).map (·.did.publicKey)

/-- What the route becomes when it is written and read. -/
def reloaded (r : RelayedExternalRoute) : RelayedExternalRoute :=
  { r with
    base := r.base.reloaded
    fromPeer := r.fromPeer.map NetworkPeer.reloaded
    toPeer := r.toPeer.map NetworkPeer.reloaded }

/-- With attributes that are objects nothing changes. -/
theorem reloaded_eq {r : RelayedExternalRoute}
    (h : ∀ pk ∈ r.publicKeys, pk.attributes.isObject = true) : r.reloaded = r := by
  rw [publicKeys, List.map_append] at h
  obtain ⟨hbase, hpeers⟩ := List.forall_mem_append.mp h
  obtain ⟨hfrom, hto⟩ := List.forall_mem_append.mp hpeers
  rw [reloaded, SimpleExternalRoute.reloaded_eq hbase, NetworkPeer.map_reloaded_eq hfrom,
    NetworkPeer.map_reloaded_eq hto]

/-- **A relayed route is read back**, up to what happens to its public keys. -/
@[simp] theorem fromJson_toJson (d : Draw) (r : RelayedExternalRoute) :
    fromJson d r.toJson = .ok r.reloaded := by
  simp [fromJson, toJson, reloaded]

end RelayedExternalRoute

end RaCommon
