import RaCommon.Runtime.Json

set_option relaxedAutoImplicit false
set_option autoImplicit false

/-!
# Encryption algorithms (`crypto/encryption_algorithm.hpp`)

## Main definitions

* `RaCommon.EncryptionAlgorithm`, `RaCommon.EncryptionAlgorithm.toStr` — the algorithms and their
  names.
* `RaCommon.encryptionAlgorithmFromString` — the algorithm of a name; every other text is taken for
  `Aes256`.

## Main results

* `RaCommon.encryptionAlgorithmFromString_toStr` — the name is read back.
-/

namespace RaCommon

/-- `EncryptionAlgorithm`. -/
inductive EncryptionAlgorithm where
  | cast5
  | aes256
  | aes512
  deriving DecidableEq, Repr

namespace EncryptionAlgorithm

/-- `ToString(EncryptionAlgorithm)`. -/
def toStr : EncryptionAlgorithm → Str
  | .cast5 => str "Cast5"
  | .aes256 => str "Aes256"
  | .aes512 => str "Aes512"

/-- The conversion of the name. -/
def toJson (a : EncryptionAlgorithm) : Json := .string a.toStr

end EncryptionAlgorithm

/-- `EncryptionAlgorithmFromString`. -/
def encryptionAlgorithmFromString (s : Str) : EncryptionAlgorithm :=
  if s = str "Cast5" then .cast5
  else if s = str "Aes512" then .aes512
  else .aes256

namespace EncryptionAlgorithm

/-- `EncryptionAlgorithmFromString(data.get<std::string>())`. -/
def fromJson (data : Json) : Outcome EncryptionAlgorithm := do
  .ok (encryptionAlgorithmFromString (← data.getString))

end EncryptionAlgorithm

/-- The name of an algorithm is read back. -/
@[simp] theorem encryptionAlgorithmFromString_toStr (a : EncryptionAlgorithm) :
    encryptionAlgorithmFromString a.toStr = a := by
  cases a <;> simp [encryptionAlgorithmFromString, EncryptionAlgorithm.toStr]

/-- An optional algorithm that was written is read back. -/
@[simp] lemma EncryptionAlgorithm.readOption_algorithm (o : Option EncryptionAlgorithm) :
    Json.readOption fromJson (o.map toJson) = .ok o := by
  have h : Json.readOption fromJson (o.map toJson) = .ok (o.map id) :=
    Json.readOption_map fun a _ => by simp [fromJson, toJson]
  rwa [Option.map_id, id_eq] at h

end RaCommon
