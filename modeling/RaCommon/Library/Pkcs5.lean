import RaCommon.Library.BitString

set_option relaxedAutoImplicit false
set_option autoImplicit false

/-!
# HMAC and PBKDF2 (RFC 2104, RFC 8018)

The keyed hash of RFC 2104 over any hash function on bytes, and the key derivation function of
RFC 8018 (PKCS #5) over any pseudorandom function.

## Main definitions

* `Pkcs5.hmac` — HMAC over a hash function with a given block size.
* `Pkcs5.pbkdf2` — PBKDF2 over a pseudorandom function.

## Main results

* `Pkcs5.length_pbkdf2` — the derived key has the length asked for.
-/

namespace Pkcs5

/-- Two byte strings combined bit by bit. -/
def xorBytes (a b : List UInt8) : List UInt8 := List.zipWith (· ^^^ ·) a b

/-! ## HMAC -/

/-- The key as the first block: hashed when it is longer than a block, then filled up with zero
bytes. -/
def hmacKey (H : List UInt8 → List UInt8) (B : ℕ) (K : List UInt8) : List UInt8 :=
  let K₀ := if B < K.length then H K else K
  K₀ ++ List.replicate (B - K₀.length) 0

/-- `HMAC(K, text) = H((K ⊕ opad) ‖ H((K ⊕ ipad) ‖ text))`. -/
def hmac (H : List UInt8 → List UInt8) (B : ℕ) (K text : List UInt8) : List UInt8 :=
  let K₀ := hmacKey H B K
  H (K₀.map (· ^^^ 0x5c) ++ H (K₀.map (· ^^^ 0x36) ++ text))

/-! ## PBKDF2 -/

section Pbkdf2

variable (prf : List UInt8 → List UInt8)

/-- `INT(i)`: the four octets of a block index, most significant first. -/
def int (i : ℕ) : List UInt8 := BitString.toBytes (BitString.ofNat 32 i)

/-- `U_{j+1}`: the pseudorandom function applied `j + 1` times. -/
def u (x : List UInt8) : ℕ → List UInt8
  | 0 => prf x
  | j + 1 => prf (u x j)

/-- `F(P, S, c, i)`: the exclusive or of `U_1` to `U_c`, for `1 ≤ c`. -/
def f (S : List UInt8) (c i : ℕ) : List UInt8 :=
  (List.range' 1 (c - 1)).foldl (fun t j => xorBytes t (u prf (S ++ int i) j))
    (u prf (S ++ int i) 0)

/-- `PBKDF2(P, S, c, dkLen)`: the blocks `T_1`, `T_2`, … laid end to end and cut off, for a
pseudorandom function with results of `hLen` octets. -/
def pbkdf2 (hLen : ℕ) (S : List UInt8) (c dkLen : ℕ) : List UInt8 :=
  ((List.range ((dkLen + hLen - 1) / hLen)).flatMap fun i => f prf S c (i + 1)).take dkLen

variable {prf}

/-- Every `U` has the length of the pseudorandom function's results. -/
lemma length_u {hLen : ℕ} (hprf : ∀ x, (prf x).length = hLen) (x : List UInt8) (j : ℕ) :
    (u prf x j).length = hLen := by
  cases j with
  | zero => exact hprf x
  | succ j => exact hprf _

/-- Every block has the length of the pseudorandom function's results. -/
lemma length_f {hLen : ℕ} (hprf : ∀ x, (prf x).length = hLen) (S : List UInt8) (c i : ℕ) :
    (f prf S c i).length = hLen := by
  have h : ∀ (js : List ℕ) (t : List UInt8), t.length = hLen →
      (js.foldl (fun t j => xorBytes t (u prf (S ++ int i) j)) t).length = hLen := by
    intro js
    induction js with
    | nil => exact fun t ht => ht
    | cons j js ih =>
      intro t ht
      rw [List.foldl_cons]
      apply ih
      rw [xorBytes, List.length_zipWith, ht, length_u hprf, Nat.min_self]
  exact h _ _ (length_u hprf _ 0)

/-- The length of blocks laid end to end. -/
lemma length_blocks {hLen : ℕ} (hprf : ∀ x, (prf x).length = hLen) (S : List UInt8) (c n : ℕ) :
    ((List.range n).flatMap fun i => f prf S c (i + 1)).length = hLen * n := by
  induction n with
  | zero => rfl
  | succ n ih =>
    rw [List.range_succ, List.flatMap_append, List.length_append, ih, List.flatMap_singleton,
      length_f hprf, Nat.mul_succ]

/-- **The derived key has the length asked for.** -/
theorem length_pbkdf2 {hLen : ℕ} (hpos : 0 < hLen) (hprf : ∀ x, (prf x).length = hLen)
    (S : List UInt8) (c dkLen : ℕ) : (pbkdf2 prf hLen S c dkLen).length = dkLen := by
  rw [pbkdf2, List.length_take, length_blocks hprf]
  refine Nat.min_eq_left ?_
  have h := Nat.div_add_mod (dkLen + hLen - 1) hLen
  have hmod := Nat.mod_lt (dkLen + hLen - 1) hpos
  omega

end Pbkdf2

end Pkcs5
