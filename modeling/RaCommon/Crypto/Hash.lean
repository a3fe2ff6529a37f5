import RaCommon.Crypto.HashAlgorithm
import RaCommon.Runtime.Json

set_option relaxedAutoImplicit false
set_option autoImplicit false

/-!
# Hash values (`crypto/hash.hpp`)

## Main definitions

* `RaCommon.Hash` — a hash text with its algorithm.

## Main results

* `RaCommon.Hash.fromJson_toJson` — a hash is read back.
-/

namespace RaCommon

/-- `Hash`. -/
structure Hash where
  hashValue : Str
  algorithm : HashAlgorithm
  deriving DecidableEq

namespace Hash

/-- `Hash::ToJson`. -/
def toJson (h : Hash) : Json :=
  .object <| Fields.of
    [(str "hash", .string h.hashValue), (str "algorithm", .string h.algorithm.toStr)]

/-- `Hash::FromJson`. -/
def fromJson (data : Json) : Outcome Hash := do
  let hashValue ← (← data.at (str "hash")).getString
  let algorithm ← parseHashAlgorithm (← (← data.at (str "algorithm")).getString)
  .ok ⟨hashValue, algorithm⟩

/-- **A hash is read back.** -/
@[simp] theorem fromJson_toJson (h : Hash) : fromJson h.toJson = .ok h := by
  simp [fromJson, toJson]

/-- An optional hash that was written is read back. -/
@[simp] lemma readOption_hash (o : Option Hash) :
    Json.readOption fromJson (o.map toJson) = .ok o := by
  have h : Json.readOption fromJson (o.map toJson) = .ok (o.map id) :=
    Json.readOption_map fun b _ => fromJson_toJson b
  rwa [Option.map_id, id_eq] at h

end Hash

end RaCommon
