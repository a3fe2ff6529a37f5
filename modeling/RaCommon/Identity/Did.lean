import RaCommon.Crypto.Hash
import RaCommon.Identity.PublicKey

set_option relaxedAutoImplicit false
set_option autoImplicit false

/-!
# Decentralised identities and network peers (`identity/did.hpp`, `network.hpp`)

## Main definitions

* `RaCommon.DidStatus`, `RaCommon.DidType`, `RaCommon.Network` — enumerations with their names;
  a name that is none of them is read as a default.
* `RaCommon.Did`, `RaCommon.NetworkPeer` — the two records, with `toJson` and `fromJson`.
* `RaCommon.NetworkPeer.equals` — the comparison of peers.
* `RaCommon.NetworkPeer.Same`, `RaCommon.NetworkPeer.Shifted` — two peers that are the same, and two
  whose address and fingerprint are the same text cut at different spaces.

## Main results

* `RaCommon.Did.fromJson_toJson`, `RaCommon.NetworkPeer.fromJson_toJson` — both are read back, up
  to what happens to their public key.
* `RaCommon.NetworkPeer.equals_same_iff` — for which peers the comparison is right.
-/

namespace RaCommon

/-! ## Identities -/

/-- `DidStatus`. -/
inductive DidStatus where
  | inactive
  | active
  | suspended
  | «private»
  deriving DecidableEq, Repr

/-- `ToString(DidStatus)`. -/
def DidStatus.toStr : DidStatus → Str
  | .inactive => str "Inactive"
  | .active => str "Active"
  | .suspended => str "Suspended"
  | .private => str "Private"

/-- `DidStatusFromString`. -/
def didStatusFromString (s : Str) : DidStatus :=
  if s = str "Active" then .active
  else if s = str "Suspended" then .suspended
  else if s = str "Private" then .private
  else .inactive

@[simp] lemma didStatusFromString_toStr (s : DidStatus) : didStatusFromString s.toStr = s := by
  cases s <;> simp [didStatusFromString, DidStatus.toStr]

/-- `DidType`. -/
inductive DidType where
  | contact
  | identity
  | node
  deriving DecidableEq, Repr

/-- `ToString(DidType)`. -/
def DidType.toStr : DidType → Str
  | .contact => str "Contact"
  | .identity => str "Identity"
  | .node => str "Node"

/-- `DidTypeFromString`. -/
def didTypeFromString (s : Str) : DidType :=
  if s = str "Contact" then .contact
  else if s = str "Node" then .node
  else .identity

@[simp] lemma didTypeFromString_toStr (t : DidType) : didTypeFromString t.toStr = t := by
  cases t <;> simp [didTypeFromString, DidType.toStr]

/-- `Did`. -/
structure Did where
  username : Str := str "Anon"
  passphrase : Option Str := none
  passphrase2 : Option Str := none
  passphraseHash : Option Hash := none
  passphraseHashAlgorithm : HashAlgorithm := .pbkdf2HmacSha1
  description : Str := []
  status : DidStatus := .inactive
  didType : DidType := .identity
  verified : Bool := false
  authenticated : Bool := false
  publicKey : PublicKey := {}

namespace Did

/-- `Did::ToJson`. -/
def toJson (d : Did) : Json :=
  .object <| Fields.of []
    |>.set (str "username") (.string d.username)
    |>.setOpt (str "passphrase") d.passphrase .string
    |>.setOpt (str "passphrase2") d.passphrase2 .string
    |>.setOpt (str "passphrase_hash") d.passphraseHash Hash.toJson
    |>.set (str "passphrase_hash_algorithm") (.string d.passphraseHashAlgorithm.toStr)
    |>.set (str "description") (.string d.description)
    |>.set (str "status") (.string d.status.toStr)
    |>.set (str "did_type") (.string d.didType.toStr)
    |>.set (str "verified") (.boolean d.verified)
    |>.set (str "authenticated") (.boolean d.authenticated)
    |>.set (str "public_key") d.publicKey.toJson

/-- `Did::FromJson`. -/
def fromJson (data : Json) : Outcome Did := do
  let username ← data.value (str "username") Json.getString (str "Anon")
  let passphrase ← data.optional (str "passphrase") Json.getString
  let passphrase2 ← data.optional (str "passphrase2") Json.getString
  let passphraseHash ← data.optional (str "passphrase_hash") Hash.fromJson
  let passphraseHashAlgorithm ← data.orDefault (str "passphrase_hash_algorithm")
    (fun v => do parseHashAlgorithm (← v.getString)) .pbkdf2HmacSha1
  let description ← data.value (str "description") Json.getString []
  let status ← data.orDefault (str "status")
    (fun v => do .ok (didStatusFromString (← v.getString))) .inactive
  let didType ← data.orDefault (str "did_type")
    (fun v => do .ok (didTypeFromString (← v.getString))) .identity
  let verified ← data.value (str "verified") Json.getBool false
  let authenticated ← data.value (str "authenticated") Json.getBool false
  let publicKey ← data.orDefault (str "public_key") PublicKey.fromJson {}
  .ok { username, passphrase, passphrase2, passphraseHash, passphraseHashAlgorithm, description,
        status, didType, verified, authenticated, publicKey }

/-- What an identity becomes when it is written and read. -/
def reloaded (d : Did) : Did := { d with publicKey := d.publicKey.reloaded }

/-- **An identity is read back**, up to what happens to its public key. -/
@[simp] theorem fromJson_toJson (d : Did) : fromJson d.toJson = .ok d.reloaded := by
  simp [fromJson, toJson, reloaded]

/-- With attributes that are an object nothing changes. -/
theorem reloaded_eq {d : Did} (h : d.publicKey.attributes.isObject = true) : d.reloaded = d := by
  rw [reloaded, PublicKey.reloaded_eq h]

/-- With attributes that are objects nothing changes in an optional identity. -/
lemma map_reloaded_eq {o : Option Did}
    (h : ∀ pk ∈ o.toList.map (·.publicKey), pk.attributes.isObject = true) :
    o.map reloaded = o := by
  cases o with
  | none => rfl
  | some d => rw [Option.map_some, reloaded_eq (h _ (by simp))]

/-- An optional identity that was written is read back. -/
@[simp] lemma readOption_did (o : Option Did) :
    Json.readOption fromJson (o.map toJson) = .ok (o.map reloaded) :=
  Json.readOption_map fun b _ => fromJson_toJson b

end Did

/-! ## Network peers -/

/-- `Network`. -/
inductive Network where
  | card
  | nfc
  | http
  | tor
  | i2p
  | wiFi
  | bluetooth
  | satellite
  | fsRadio
  | liFi
  deriving DecidableEq, Repr

/-- `ToString(Network)`. -/
def Network.toStr : Network → Str
  | .card => str "Card"
  | .nfc => str "Nfc"
  | .http => str "Http"
  | .tor => str "Tor"
  | .i2p => str "I2p"
  | .wiFi => str "WiFi"
  | .bluetooth => str "Bluetooth"
  | .satellite => str "Satellite"
  | .fsRadio => str "FsRadio"
  | .liFi => str "LiFi"

/-- `NetworkFromString`. -/
def networkFromString (s : Str) : Network :=
  if s = str "Card" then .card
  else if s = str "Nfc" then .nfc
  else if s = str "Tor" then .tor
  else if s = str "I2p" then .i2p
  else if s = str "WiFi" then .wiFi
  else if s = str "Bluetooth" then .bluetooth
  else if s = str "Satellite" then .satellite
  else if s = str "FsRadio" then .fsRadio
  else if s = str "LiFi" then .liFi
  else .http

@[simp] lemma networkFromString_toStr (n : Network) : networkFromString n.toStr = n := by
  cases n <;> simp [networkFromString, Network.toStr]

/-- `NetworkPeer`. -/
structure NetworkPeer where
  networkValue : Network := .http
  did : Did := {}
  id : Option Str := none
  port : Option Int32 := none
  services : List Str := []

namespace NetworkPeer

/-- `NetworkPeer::ToJson`. -/
def toJson (p : NetworkPeer) : Json :=
  .object <| Fields.of []
    |>.setOpt (str "id") p.id .string
    |>.setOpt (str "port") p.port Json.ofInt
    |>.set (str "network") (.string p.networkValue.toStr)
    |>.set (str "did") p.did.toJson
    |>.setIf (!p.services.isEmpty) (str "services") (Json.ofStrings p.services)

/-- `NetworkPeer::FromJson`. -/
def fromJson (data : Json) : Outcome NetworkPeer := do
  let networkValue ← data.orDefault (str "network")
    (fun v => do .ok (networkFromString (← v.getString))) .http
  let did ← data.orDefault (str "did") Did.fromJson {}
  let id ← data.optional (str "id") Json.getString
  let port ← data.optional (str "port") Json.getInt
  let services ← data.orDefault (str "services") Json.getStrings []
  .ok { networkValue, did, id, port, services }

/-- What a peer becomes when it is written and read. -/
def reloaded (p : NetworkPeer) : NetworkPeer := { p with did := p.did.reloaded }

/-- **A peer is read back**, up to what happens to its public key. -/
@[simp] theorem fromJson_toJson (p : NetworkPeer) : fromJson p.toJson = .ok p.reloaded := by
  have hservices : Json.readOr Json.getStrings []
      (if p.services = [] then none else some (Json.ofStrings p.services)) = .ok p.services := by
    by_cases hempty : p.services = []
    · rw [hempty]
      rfl
    · rw [if_neg hempty]
      exact Json.getStrings_ofStrings _
  simp [fromJson, toJson, reloaded, hservices]

/-- With attributes that are an object nothing changes. -/
theorem reloaded_eq {p : NetworkPeer} (h : p.did.publicKey.attributes.isObject = true) :
    p.reloaded = p := by
  rw [reloaded, Did.reloaded_eq h]

/-- With attributes that are objects nothing changes in an optional peer. -/
lemma map_reloaded_eq {o : Option NetworkPeer}
    (h : ∀ pk ∈ o.toList.map (·.did.publicKey), pk.attributes.isObject = true) :
    o.map reloaded = o := by
  cases o with
  | none => rfl
  | some p => rw [Option.map_some, reloaded_eq (h _ (by simp))]

/-- An optional peer that was written is read back. -/
@[simp] lemma readOption_peer (o : Option NetworkPeer) :
    Json.readOption fromJson (o.map toJson) = .ok (o.map reloaded) :=
  Json.readOption_map fun b _ => fromJson_toJson b

/-! ## Comparing peers -/

/-- The text that peers are compared by. -/
def key (p : NetworkPeer) : Option Str :=
  match p.did.publicKey.addressValue, p.did.publicKey.fingerprintValue with
  | some address, some fingerprint => some (address ++ str " " ++ fingerprint)
  | _, _ => none

/-- `NetworkPeer::Equals`. -/
def equals (p q : NetworkPeer) : Bool := p.key.isSome && p.key == q.key

/-- The peer has this address and this fingerprint. -/
def Has (p : NetworkPeer) (address fingerprint : Str) : Prop :=
  p.did.publicKey.addressValue = some address ∧
    p.did.publicKey.fingerprintValue = some fingerprint

/-- Both peers have an address and a fingerprint, the same ones. -/
def Same (p q : NetworkPeer) : Prop :=
  ∃ address fingerprint, p.Has address fingerprint ∧ q.Has address fingerprint

/-- The address of `q` is that of `p` continued by a space and some text, which is missing at the
front of its fingerprint. -/
def Shifted (p q : NetworkPeer) : Prop :=
  ∃ address text fingerprint, p.Has address (text ++ str " " ++ fingerprint) ∧
    q.Has (address ++ str " " ++ text) fingerprint

/-- The text of a peer that has both parts. -/
lemma key_eq_some {p : NetworkPeer} {k : Str} :
    p.key = some k ↔ ∃ address fingerprint, p.Has address fingerprint ∧
      k = address ++ str " " ++ fingerprint := by
  unfold key Has
  cases p.did.publicKey.addressValue with
  | none => simp
  | some address =>
    cases p.did.publicKey.fingerprintValue with
    | none => simp
    | some fingerprint => simp [eq_comm]

/-- What a peer has it has only one of. -/
lemma Has.unique {p : NetworkPeer} {a a' f f' : Str} (h : p.Has a f) (h' : p.Has a' f') :
    a = a' ∧ f = f' :=
  ⟨Option.some.inj (h.1.symm.trans h'.1), Option.some.inj (h.2.symm.trans h'.2)⟩

/-- **Two texts with a space between their parts**: they are equal when their parts are, and when
one is cut at a later space than the other. -/
theorem append_space_inj {a f a' f' : Str} :
    a ++ str " " ++ f = a' ++ str " " ++ f' ↔ (a = a' ∧ f = f') ∨
      (∃ t, a' = a ++ str " " ++ t ∧ f = t ++ str " " ++ f') ∨
      ∃ t, a = a' ++ str " " ++ t ∧ f' = t ++ str " " ++ f := by
  have hspace : str " " = [32] := rfl
  simp only [hspace, List.append_assoc, List.singleton_append]
  constructor
  · intro h
    rcases List.append_eq_append_iff.mp h with ⟨u, ha, hf⟩ | ⟨u, ha, hf⟩
    · cases u with
      | nil => exact .inl ⟨by simpa using ha.symm, (List.cons.inj hf).2⟩
      | cons c u =>
        obtain ⟨rfl, hrest⟩ := List.cons.inj hf
        exact .inr (.inl ⟨u, ha, hrest⟩)
    · cases u with
      | nil => exact .inl ⟨by simpa using ha, (List.cons.inj hf).2.symm⟩
      | cons c u =>
        obtain ⟨rfl, hrest⟩ := List.cons.inj hf
        exact .inr (.inr ⟨u, ha, hrest⟩)
  · rintro (⟨rfl, rfl⟩ | ⟨t, rfl, rfl⟩ | ⟨t, rfl, rfl⟩)
    · rfl
    · simp
    · simp

/-- **What the comparison decides**: whether the peers are the same, or shifted one way or the
other. -/
theorem equals_iff (p q : NetworkPeer) :
    p.equals q = true ↔ p.Same q ∨ p.Shifted q ∨ q.Shifted p := by
  have hkeys : p.equals q = true ↔ ∃ k, p.key = some k ∧ q.key = some k := by
    rw [equals, Bool.and_eq_true, beq_iff_eq, Option.isSome_iff_exists]
    exact ⟨fun ⟨⟨k, hk⟩, heq⟩ => ⟨k, hk, heq.symm.trans hk⟩,
      fun ⟨k, hk, hk'⟩ => ⟨⟨k, hk⟩, hk.trans hk'.symm⟩⟩
  simp only [hkeys, key_eq_some]
  constructor
  · rintro ⟨k, ⟨a, f, hp, rfl⟩, a', f', hq, hk⟩
    rcases append_space_inj.mp hk with ⟨rfl, rfl⟩ | ⟨t, rfl, rfl⟩ | ⟨t, rfl, rfl⟩
    · exact .inl ⟨a, f, hp, hq⟩
    · exact .inr (.inl ⟨a, t, f', hp, hq⟩)
    · exact .inr (.inr ⟨a', t, f, hq, hp⟩)
  · rintro (⟨a, f, hp, hq⟩ | ⟨a, t, f, hp, hq⟩ | ⟨a, t, f, hq, hp⟩)
    · exact ⟨_, ⟨a, f, hp, rfl⟩, a, f, hq, rfl⟩
    · exact ⟨_, ⟨a, _, hp, rfl⟩, _, f, hq, by simp⟩
    · exact ⟨_, ⟨_, f, hp, rfl⟩, a, _, hq, by simp⟩

/-- Shifted peers are not the same. -/
lemma Shifted.not_same {p q : NetworkPeer} (h : p.Shifted q) : ¬ p.Same q := by
  rintro ⟨a, f, hp, hq⟩
  obtain ⟨a', t, f', hp', hq'⟩ := h
  obtain ⟨rfl, -⟩ := hp.unique hp'
  obtain ⟨ha, -⟩ := hq.unique hq'
  have hlength := congrArg List.length ha
  simp only [List.length_append, show (str " ").length = 1 from rfl] at hlength
  omega

/-- Being the same does not depend on the order. -/
lemma Same.symm {p q : NetworkPeer} (h : p.Same q) : q.Same p := by
  obtain ⟨a, f, hp, hq⟩ := h
  exact ⟨a, f, hq, hp⟩

/-- **For which peers the comparison is right**: it tells whether they are the same exactly when
they are not shifted, one way or the other. -/
theorem equals_same_iff (p q : NetworkPeer) :
    (p.equals q = true ↔ p.Same q) ↔ ¬ p.Shifted q ∧ ¬ q.Shifted p := by
  rw [equals_iff]
  constructor
  · intro h
    exact ⟨fun hshift => hshift.not_same (h.mp (.inr (.inl hshift))),
      fun hshift => hshift.not_same (h.mp (.inr (.inr hshift))).symm⟩
  · rintro ⟨hpq, hqp⟩
    exact ⟨fun h => h.resolve_right fun hshift => hshift.elim hpq hqp, .inl⟩

/-- A peer of which only the address and the fingerprint are known. -/
def known (address fingerprint : Str) : NetworkPeer :=
  { did := { publicKey :=
      { addressValue := some address, fingerprintValue := some fingerprint } } }

/-- Two peers that differ in address and fingerprint, and compare equal. -/
theorem equals_shifted : ¬ ∀ p q : NetworkPeer, p.equals q = true ↔ p.Same q := by
  intro hall
  have hequal : (known (str "a") (str "b c")).equals (known (str "a b") (str "c")) = true := by
    decide
  obtain ⟨a, f, ⟨ha, -⟩, ha', -⟩ := (hall _ _).mp hequal
  have heq := ha.trans ha'.symm
  simp [known] at heq

end NetworkPeer

end RaCommon
