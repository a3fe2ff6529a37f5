import RaCommon.Runtime.Json

set_option relaxedAutoImplicit false
set_option autoImplicit false

/-!
# Public keys and signatures (`identity/signature.hpp`, `identity/public_key.hpp`)

## Main definitions

* `RaCommon.Signature`, `RaCommon.PublicKey` — the two records, with `toJson` and `fromJson`.
* `RaCommon.PublicKey.reloaded` — what a public key becomes when it is written and read.

## Main results

* `RaCommon.Signature.fromJson_toJson` — a signature is read back.
* `RaCommon.PublicKey.fromJson_toJson` — a public key is read back, empty attributes as an empty
  object.
* `RaCommon.PublicKey.reloaded_eq` — with attributes that are an object nothing changes.
-/

namespace RaCommon

/-! ## Signatures -/

/-- `Signature`. -/
structure Signature where
  valueSigned : Option Str
  algorithm : Option Str
  signedDate : Option Str
  signedByUsername : Option Str
  signedByFingerprint : Option Str
  signedByAddress : Option Str

namespace Signature

/-- `Signature::ToJson`. -/
def toJson (s : Signature) : Json :=
  .object <| Fields.of []
    |>.setOpt (str "value_signed") s.valueSigned .string
    |>.setOpt (str "algorithm") s.algorithm .string
    |>.setOpt (str "signed_date") s.signedDate .string
    |>.setOpt (str "signed_by_username") s.signedByUsername .string
    |>.setOpt (str "signed_by_fingerprint") s.signedByFingerprint .string
    |>.setOpt (str "signed_by_address") s.signedByAddress .string

/-- `Signature::FromJson`. -/
def fromJson (data : Json) : Outcome Signature := do
  let valueSigned ← data.optional (str "value_signed") Json.getString
  let algorithm ← data.optional (str "algorithm") Json.getString
  let signedDate ← data.optional (str "signed_date") Json.getString
  let signedByUsername ← data.optional (str "signed_by_username") Json.getString
  let signedByFingerprint ← data.optional (str "signed_by_fingerprint") Json.getString
  let signedByAddress ← data.optional (str "signed_by_address") Json.getString
  .ok ⟨valueSigned, algorithm, signedDate, signedByUsername, signedByFingerprint, signedByAddress⟩

/-- **A signature is read back.** -/
@[simp] theorem fromJson_toJson (s : Signature) : fromJson s.toJson = .ok s := by
  simp [fromJson, toJson]

end Signature

/-! ## Public keys -/

/-- `PublicKey`. -/
structure PublicKey where
  alias_ : Option Str := none
  fingerprintValue : Option Str := none
  addressValue : Option Str := none
  keyType : Option Str := none
  isIdentityKey : Bool := false
  isEncryptionKey : Bool := false
  isBase64Encoded : Bool := false
  isBase58Encoded : Bool := false
  isPem : Bool := false
  isHex : Bool := false
  attributes : Json := .object []
  signedAttributes : OrderedMap Str (List Signature) := .empty

namespace PublicKey

/-- The JSON object of `signed_attributes`. -/
def signedJson (signed : OrderedMap Str (List Signature)) : Json :=
  .object <| signed.entries.foldl
    (fun m e => Fields.set m e.1 (.array (e.2.map Signature.toJson))) []

/-- `PublicKey::ToJson`. -/
def toJson (pk : PublicKey) : Json :=
  .object <| Fields.of []
    |>.setOpt (str "alias") pk.alias_ .string
    |>.setOpt (str "fingerprint") pk.fingerprintValue .string
    |>.setOpt (str "address") pk.addressValue .string
    |>.setOpt (str "type") pk.keyType .string
    |>.setIf pk.isIdentityKey (str "is_identity_key") (.boolean true)
    |>.setIf pk.isEncryptionKey (str "is_encryption_key") (.boolean true)
    |>.setIf pk.isBase64Encoded (str "is_base64_encoded") (.boolean true)
    |>.setIf pk.isBase58Encoded (str "is_base58_encoded") (.boolean true)
    |>.setIf pk.isPem (str "is_pem") (.boolean true)
    |>.setIf pk.isHex (str "is_hex") (.boolean true)
    |>.setIf (!pk.attributes.isEmpty) (str "attributes") pk.attributes
    |>.setIf (!pk.signedAttributes.entries.isEmpty) (str "signed_attributes")
      (signedJson pk.signedAttributes)

/-- The loop over `items()` of `signed_attributes`. -/
def signedFromJson (data : Json) : Outcome (OrderedMap Str (List Signature)) :=
  data.items.foldlM
    (fun signed e => do
      let sigs ← e.2.elems.mapM Signature.fromJson
      .ok (signed.set e.1 sigs)) .empty

/-- `PublicKey::FromJson`. -/
def fromJson (data : Json) : Outcome PublicKey := do
  let alias_ ← data.optional (str "alias") Json.getString
  let fingerprintValue ← data.optional (str "fingerprint") Json.getString
  let addressValue ← data.optional (str "address") Json.getString
  let keyType ← data.optional (str "type") Json.getString
  let isIdentityKey ← data.value (str "is_identity_key") Json.getBool false
  let isEncryptionKey ← data.value (str "is_encryption_key") Json.getBool false
  let isBase64Encoded ← data.value (str "is_base64_encoded") Json.getBool false
  let isBase58Encoded ← data.value (str "is_base58_encoded") Json.getBool false
  let isPem ← data.value (str "is_pem") Json.getBool false
  let isHex ← data.value (str "is_hex") Json.getBool false
  let attributes ← data.orDefault (str "attributes") .ok (.object [])
  let signedAttributes ← data.orDefault (str "signed_attributes") signedFromJson .empty
  .ok { alias_, fingerprintValue, addressValue, keyType, isIdentityKey, isEncryptionKey,
        isBase64Encoded, isBase58Encoded, isPem, isHex, attributes, signedAttributes }

/-- What a public key becomes when it is written and read: empty attributes are left out, and
restored as an empty object. -/
def reloaded (pk : PublicKey) : PublicKey :=
  { pk with attributes := if pk.attributes.isEmpty then .object [] else pk.attributes }

/-- A flag that is written when it is set is read back. -/
@[simp] lemma readOr_getBool_ite (c : Bool) :
    Json.readOr Json.getBool false (if c then some (.boolean true) else none) = .ok c := by
  cases c <;> rfl

/-- **The signed attributes are read back.**

**Proof sketch.** The object holds one member for each entry of the map, in the same order; the
loop over its members inserts the entries again, in that order. -/
theorem signedFromJson_signedJson (signed : OrderedMap Str (List Signature)) :
    signedFromJson (signedJson signed) = .ok signed := by
  have hjson : signedJson signed =
      .object (signed.entries.map fun e => (e.1, .array (e.2.map Signature.toJson))) := by
    have h := OrderedMap.foldl_insert (signed.sorted.map fun sigs =>
      Json.array (sigs.map Signature.toJson))
    rw [List.foldl_map] at h
    rw [signedJson, ← h]
    rfl
  have hstep : ∀ (acc : OrderedMap Str (List Signature)) (e : Str × List Signature),
      (do
        let sigs ← (Json.array (e.2.map Signature.toJson)).elems.mapM Signature.fromJson
        .ok (acc.set e.1 sigs) : Outcome (OrderedMap Str (List Signature))) =
        .ok (acc.set e.1 e.2) := by
    intro acc e
    have h : (e.2.map Signature.toJson).mapM Signature.fromJson = .ok (e.2.map id) :=
      Json.mapM_map e.2 fun s _ => Signature.fromJson_toJson s
    rw [List.map_id] at h
    rw [Json.elems, h, Outcome.ok_bind]
  rw [hjson, signedFromJson, Json.items, List.foldlM_map,
    Outcome.foldlM_eq_ok (g := fun acc e => acc.set e.1 e.2) signed.entries .empty
      fun acc e _ => hstep acc e, OrderedMap.foldl_set]

/-- **A public key is read back**, empty attributes as an empty object. -/
@[simp] theorem fromJson_toJson (pk : PublicKey) : fromJson pk.toJson = .ok pk.reloaded := by
  have hattributes : Json.readOr .ok (.object [])
      (if pk.attributes.isEmpty = false then some pk.attributes else none) =
        .ok (if pk.attributes.isEmpty then .object [] else pk.attributes) := by
    cases pk.attributes.isEmpty <;> rfl
  have hsigned : Json.readOr signedFromJson .empty
      (if pk.signedAttributes.entries = [] then none
        else some (signedJson pk.signedAttributes)) = .ok pk.signedAttributes := by
    by_cases hempty : pk.signedAttributes.entries = []
    · have hnil : pk.signedAttributes = .empty := OrderedMap.ext hempty
      rw [hnil]
      rfl
    · rw [if_neg hempty]
      exact signedFromJson_signedJson _
  simp [fromJson, toJson, hattributes, hsigned, reloaded]

/-- **With attributes that are an object nothing changes.** -/
theorem reloaded_eq {pk : PublicKey} (h : pk.attributes.isObject = true) : pk.reloaded = pk := by
  unfold reloaded
  cases hempty : pk.attributes.isEmpty with
  | false => rfl
  | true =>
    have hnil : pk.attributes = .object [] := by
      cases hattr : pk.attributes with
      | object fields =>
        rw [hattr] at hempty
        rw [List.isEmpty_iff.mp hempty]
      | _ => simp [hattr, Json.isObject] at h
    rw [if_pos rfl, ← hnil]

end PublicKey

end RaCommon
