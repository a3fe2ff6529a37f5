import RaCommon.Runtime.Outcome

set_option relaxedAutoImplicit false
set_option autoImplicit false

/-!
# Hash algorithms (`crypto/hash_algorithm.hpp`)

## Main definitions

* `RaCommon.HashAlgorithm`, `RaCommon.HashAlgorithm.toStr`, `RaCommon.HashAlgorithm.jcaName` —
  the algorithms and their names.
* `RaCommon.parseHashAlgorithm` — the algorithm of a name.

## Main results

* `RaCommon.parseHashAlgorithm_toStr` — the name of an algorithm is read back.
-/

namespace RaCommon

/-- `HashAlgorithm`. -/
inductive HashAlgorithm where
  | sha1
  | sha256
  | sha512
  | pbkdf2HmacSha1
  deriving DecidableEq, Repr

/-- `ToString(HashAlgorithm)`. -/
def HashAlgorithm.toStr : HashAlgorithm → Str
  | .sha1 => str "Sha1"
  | .sha256 => str "Sha256"
  | .sha512 => str "Sha512"
  | .pbkdf2HmacSha1 => str "Pbkdf2HmacSha1"

/-- `JcaName`. -/
def HashAlgorithm.jcaName : HashAlgorithm → Str
  | .sha1 => str "SHA-1"
  | .sha256 => str "SHA-256"
  | .sha512 => str "SHA-512"
  | .pbkdf2HmacSha1 => str "PBKDF2WithHmacSHA1"

/-- `ParseHashAlgorithm`. -/
def parseHashAlgorithm (text : Str) : Outcome HashAlgorithm :=
  if text = str "SHA-1" ∨ text = str "SHA1" ∨ text = str "Sha1" then .ok .sha1
  else if text = str "SHA-256" ∨ text = str "SHA256" ∨ text = str "Sha256" then .ok .sha256
  else if text = str "SHA-512" ∨ text = str "SHA512" ∨ text = str "Sha512" then .ok .sha512
  else if text = str "PBKDF2WithHmacSHA1" ∨ text = str "Pbkdf2HmacSha1" then
    .ok .pbkdf2HmacSha1
  else .error (.invalid (str "unknown hash algorithm: " ++ text))

/-- The name in this library is read back. -/
@[simp] theorem parseHashAlgorithm_toStr (a : HashAlgorithm) :
    parseHashAlgorithm a.toStr = .ok a := by
  cases a <;> simp [parseHashAlgorithm, HashAlgorithm.toStr]

end RaCommon
