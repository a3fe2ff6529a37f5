import RaCommon.Library.BitString
import Mathlib.Data.List.Basic
import Mathlib.Data.Nat.ModEq
import Mathlib.Order.Bounds.Basic
import Mathlib.Tactic.Linarith

set_option relaxedAutoImplicit false
set_option autoImplicit false

/-!
# The secure hash standard (FIPS 180-4)

SHA-1, SHA-256 and SHA-512 of a bit string, as the standard writes them: the message is padded
and cut into blocks of sixteen words, each block's words are extended to a message schedule by
a recurrence, and the hash value is folded over the blocks by a compression function. All
arithmetic is on `w`-bit words.

The round constants and initial values of the SHA-2 functions are not copied from the tables:
they are the first bits of the fractional parts of cube and square roots of the first primes,
and are computed as that.

## Main definitions

* `Fips180.pad` — the padding of Section 5.1.
* `Fips180.Algorithm`, `Fips180.Algorithm.hash` — a hash function of the family.
* `Fips180.sha1`, `Fips180.sha256`, `Fips180.sha512` — the three functions on bit strings.

## Main results

* `Fips180.zeros_isLeast` — the padding has the least number of zero bits.
* `Fips180.dvd_length_pad` — a padded message is a whole number of blocks.
* `Fips180.fractionalRoot_spec` — the constants are the bits they are said to be.
-/

namespace Fips180

open BitString

/-! ## Padding and parsing (Section 5) -/

/-- The number of zero bits after the `1` bit of the padding of an `n`-bit message. -/
def zeros (w n : ℕ) : ℕ := (30 * w - (n + 1) % (16 * w)) % (16 * w)

/-- **The shortest padding**: `k` zero bits with `n + 1 + k ≡ 14 w (mod 16 w)`, that is 448
modulo 512 or 896 modulo 1024. -/
theorem zeros_isLeast {w : ℕ} (hw : 0 < w) (n : ℕ) :
    IsLeast {k | (n + 1 + k) % (16 * w) = 14 * w} (zeros w n) := by
  have hr : (n + 1) % (16 * w) < 16 * w := Nat.mod_lt _ (by omega)
  have hsum : ∀ k, (n + 1 + k) % (16 * w) = ((n + 1) % (16 * w) + k) % (16 * w) := fun k => by
    rw [Nat.mod_add_mod]
  simp only [IsLeast, mem_lowerBounds, Set.mem_ofPred_eq, hsum, zeros]
  generalize (n + 1) % (16 * w) = r at hr
  constructor
  · by_cases hle : r ≤ 14 * w
    · rw [show 30 * w - r = 14 * w - r + 16 * w by omega, Nat.add_mod_right,
        Nat.mod_eq_of_lt (by omega : 14 * w - r < 16 * w),
        show r + (14 * w - r) = 14 * w by omega, Nat.mod_eq_of_lt (by omega)]
    · rw [Nat.mod_eq_of_lt (by omega : 30 * w - r < 16 * w),
        show r + (30 * w - r) = 14 * w + 16 * w by omega, Nat.add_mod_right,
        Nat.mod_eq_of_lt (by omega)]
  · intro k hk
    by_contra hlt
    have hk16 : k < 16 * w := lt_of_not_ge fun h => hlt ((Nat.mod_lt _ (by omega)).le.trans h)
    by_cases hle : r ≤ 14 * w
    · rw [show 30 * w - r = 14 * w - r + 16 * w by omega, Nat.add_mod_right,
        Nat.mod_eq_of_lt (by omega : 14 * w - r < 16 * w)] at hlt
      rw [Nat.mod_eq_of_lt (by omega)] at hk
      omega
    · rw [Nat.mod_eq_of_lt (by omega : 30 * w - r < 16 * w)] at hlt
      by_cases hover : r + k < 16 * w
      · rw [Nat.mod_eq_of_lt hover] at hk
        omega
      · rw [Nat.mod_eq_sub_mod (by omega), Nat.mod_eq_of_lt (by omega)] at hk
        omega

/-- Fewer zero bits than a block that fill the padding up are those of the padding. -/
lemma zeros_eq {w n k : ℕ} (hw : 0 < w) (hk : k < 16 * w)
    (h : (n + 1 + k) % (16 * w) = 14 * w) : zeros w n = k := by
  have hleast := zeros_isLeast hw n
  have hmod : (n + 1 + zeros w n) % (16 * w) = (n + 1 + k) % (16 * w) := hleast.1.trans h.symm
  have hle : zeros w n ≤ k := hleast.2 h
  exact (Nat.ModEq.add_left_cancel' (n + 1) hmod).eq_of_lt_of_lt (hle.trans_lt hk) hk

/-- Section 5.1: a `1` bit, zero bits, and the message's length in `2 w` bits. -/
def pad (w : ℕ) (m : List Bool) : List Bool :=
  m ++ true :: List.replicate (zeros w m.length) false ++ ofNat (2 * w) m.length

/-- A padded message is a whole number of blocks. -/
theorem dvd_length_pad {w : ℕ} (hw : 0 < w) (m : List Bool) : 16 * w ∣ (pad w m).length := by
  have h : (m.length + 1 + zeros w m.length) % (16 * w) = 14 * w := (zeros_isLeast hw m.length).1
  have hlen : (pad w m).length = m.length + 1 + zeros w m.length + 2 * w := by
    simp only [pad, List.length_append, List.length_cons, List.length_replicate, length_ofNat]
    omega
  have hmod : (m.length + 1 + zeros w m.length + 2 * w) % (16 * w) = 0 := by
    rw [Nat.add_mod, h, Nat.mod_eq_of_lt (by omega : 2 * w < 16 * w),
      show 14 * w + 2 * w = 16 * w by omega, Nat.mod_self]
  rw [hlen]
  exact Nat.dvd_of_mod_eq_zero hmod

/-- Word `t` of a block. -/
def word (w : ℕ) (block : List Bool) (t : ℕ) : BitVec w :=
  BitVec.ofNat w (toNat ((block.drop (w * t)).take w))

/-! ## The family (Section 6) -/

/-- What the hash functions of the standard differ in: words of `w` bits, hash values and
working variables of type `V`. -/
structure Algorithm (w : ℕ) (V : Type) where
  /-- The initial hash value. -/
  initial : V
  /-- The number of rounds. -/
  rounds : ℕ
  /-- The message schedule of a block's words. -/
  schedule : (ℕ → BitVec w) → ℕ → BitVec w
  /-- Round `t` with its schedule word. -/
  round : ℕ → BitVec w → V → V
  /-- Word by word addition. -/
  add : V → V → V
  /-- The words of a hash value, in order. -/
  words : V → List (BitVec w)

namespace Algorithm

variable {w : ℕ} {V : Type} (A : Algorithm w V)

/-- One block: the rounds from the hash value, added to it. -/
def compress (H : V) (block : List Bool) : V :=
  let W := A.schedule (word w block)
  A.add ((List.range A.rounds).foldl (fun v t => A.round t (W t) v) H) H

/-- The hash value of a message. -/
def value (m : List Bool) : V := (groups (16 * w) (pad w m)).foldl A.compress A.initial

/-- The message digest. -/
def hash (m : List Bool) : List Bool := (A.words (A.value m)).flatMap fun x => ofNat w x.toNat

end Algorithm

/-! ## Functions of words (Section 4.1) -/

section Functions

variable {w : ℕ}

/-- `Ch(x, y, z)`. -/
def ch (x y z : BitVec w) : BitVec w := (x &&& y) ^^^ (~~~x &&& z)

/-- `Parity(x, y, z)`. -/
def parity (x y z : BitVec w) : BitVec w := x ^^^ y ^^^ z

/-- `Maj(x, y, z)`. -/
def maj (x y z : BitVec w) : BitVec w := (x &&& y) ^^^ (x &&& z) ^^^ (y &&& z)

/-- The three distances of a `Σ` or `σ`. -/
structure Distances where
  fst : ℕ
  snd : ℕ
  thd : ℕ

/-- A `Σ` function: three rotations. -/
def Distances.rotations (d : Distances) (x : BitVec w) : BitVec w :=
  x.rotateRight d.fst ^^^ x.rotateRight d.snd ^^^ x.rotateRight d.thd

/-- A `σ` function: two rotations and a shift. -/
def Distances.shifts (d : Distances) (x : BitVec w) : BitVec w :=
  x.rotateRight d.fst ^^^ x.rotateRight d.snd ^^^ (x >>> d.thd)

end Functions

/-! ## Constants (Sections 4.2 and 5.3) -/

/-- The first eighty primes, by trial division. -/
def primes : List ℕ :=
  (List.range 410).filter fun n =>
    decide (2 ≤ n) && (List.range n).all fun d => decide (d < 2) || decide (n % d ≠ 0)

/-- The largest `x` with `xᵉ ≤ n`, found bit by bit: the lowest `b` bits are still to be
chosen. -/
def root (e n : ℕ) : ℕ → ℕ → ℕ
  | 0, x => x
  | b + 1, x => if (x + 2 ^ b) ^ e ≤ n then root e n b (x + 2 ^ b) else root e n b x

/-- The search keeps the root between its bounds. -/
lemma root_spec {e n : ℕ} (b x : ℕ) (hle : x ^ e ≤ n) (hlt : n < (x + 2 ^ b) ^ e) :
    root e n b x ^ e ≤ n ∧ n < (root e n b x + 1) ^ e := by
  induction b generalizing x with
  | zero => exact ⟨hle, hlt⟩
  | succ b ih =>
    rw [root]
    by_cases h : (x + 2 ^ b) ^ e ≤ n
    · rw [if_pos h]
      refine ih _ h ?_
      rwa [Nat.add_assoc, ← Nat.two_mul, ← pow_succ']
    · rw [if_neg h]
      exact ih _ hle (by omega)

/-- The first `w` bits of the fractional part of the `e`-th root of `p`. -/
def fractionalRoot (e w p : ℕ) : BitVec w := BitVec.ofNat w (root e (p * 2 ^ (e * w)) (w + 9) 0)

/-- **The constants are the bits they are said to be**: `r` is the integer part of the `e`-th
root of `p`, times `2ʷ`, and the constant is `r` modulo `2ʷ`. -/
theorem fractionalRoot_spec {e p : ℕ} (w : ℕ) (he : e ≠ 0) (hp : p < 2 ^ 9) :
    ∃ r, r ^ e ≤ p * (2 ^ w) ^ e ∧ p * (2 ^ w) ^ e < (r + 1) ^ e ∧
      (fractionalRoot e w p).toNat = r % 2 ^ w := by
  have hpow : 2 ^ (e * w) = (2 ^ w) ^ e := by rw [← pow_mul, Nat.mul_comm]
  have hlt : p * (2 ^ w) ^ e < (0 + 2 ^ (w + 9)) ^ e := by
    have hpe : p < (2 ^ 9) ^ e := hp.trans_le (Nat.le_self_pow he _)
    have hpos : 0 < (2 ^ w) ^ e := by positivity
    rw [Nat.zero_add, pow_add, mul_pow, Nat.mul_comm]
    exact Nat.mul_lt_mul_of_pos_left hpe hpos
  obtain ⟨hle, hgt⟩ := root_spec (w + 9) 0 (by simp [he]) hlt
  refine ⟨root e (p * (2 ^ w) ^ e) (w + 9) 0, hle, hgt, ?_⟩
  rw [fractionalRoot, hpow, BitVec.toNat_ofNat]

/-! ## SHA-1 (Section 6.1) -/

/-- Five words. -/
structure Words5 where
  a : BitVec 32
  b : BitVec 32
  c : BitVec 32
  d : BitVec 32
  e : BitVec 32
  deriving DecidableEq

/-- The schedule of SHA-1. -/
def schedule1 (M : ℕ → BitVec 32) (t : ℕ) : BitVec 32 :=
  if t < 16 then M t
  else (schedule1 M (t - 3) ^^^ schedule1 M (t - 8) ^^^ schedule1 M (t - 14) ^^^
    schedule1 M (t - 16)).rotateLeft 1

/-- `f_t`. -/
def f1 (t : ℕ) : BitVec 32 → BitVec 32 → BitVec 32 → BitVec 32 :=
  if t < 20 then ch else if t < 40 then parity else if t < 60 then maj else parity

/-- `K_t` of SHA-1. -/
def k1 (t : ℕ) : BitVec 32 :=
  if t < 20 then 0x5a827999 else if t < 40 then 0x6ed9eba1 else if t < 60 then 0x8f1bbcdc
  else 0xca62c1d6

/-- One round of SHA-1. -/
def round1 (t : ℕ) (W : BitVec 32) (v : Words5) : Words5 :=
  let T := v.a.rotateLeft 5 + f1 t v.b v.c v.d + v.e + k1 t + W
  ⟨T, v.a, v.b.rotateLeft 30, v.c, v.d⟩

/-- SHA-1. -/
def algorithm1 : Algorithm 32 Words5 where
  initial := ⟨0x67452301, 0xefcdab89, 0x98badcfe, 0x10325476, 0xc3d2e1f0⟩
  rounds := 80
  schedule := schedule1
  round := round1
  add v H := ⟨v.a + H.a, v.b + H.b, v.c + H.c, v.d + H.d, v.e + H.e⟩
  words H := [H.a, H.b, H.c, H.d, H.e]

/-- SHA-1 of a bit string. -/
def sha1 (m : List Bool) : List Bool := algorithm1.hash m

/-! ## SHA-2 (Sections 6.2 and 6.4) -/

/-- Eight words. -/
structure Words8 (w : ℕ) where
  a : BitVec w
  b : BitVec w
  c : BitVec w
  d : BitVec w
  e : BitVec w
  f : BitVec w
  g : BitVec w
  h : BitVec w
  deriving DecidableEq

/-- The distances in `Σ₀`, `Σ₁`, `σ₀` and `σ₁`, and the number of rounds. -/
structure Parameters where
  bigSigma0 : Distances
  bigSigma1 : Distances
  smallSigma0 : Distances
  smallSigma1 : Distances
  rounds : ℕ

/-- The schedule of a SHA-2 function. -/
def schedule2 {w : ℕ} (p : Parameters) (M : ℕ → BitVec w) (t : ℕ) : BitVec w :=
  if t < 16 then M t
  else p.smallSigma1.shifts (schedule2 p M (t - 2)) + schedule2 p M (t - 7) +
    p.smallSigma0.shifts (schedule2 p M (t - 15)) + schedule2 p M (t - 16)

/-- `K_t` of a SHA-2 function: bits of the cube root of prime `t`. -/
def k2 (w t : ℕ) : BitVec w := fractionalRoot 3 w (primes.getD t 0)

/-- One round of a SHA-2 function. -/
def round2 {w : ℕ} (p : Parameters) (t : ℕ) (W : BitVec w) (v : Words8 w) : Words8 w :=
  let T₁ := v.h + p.bigSigma1.rotations v.e + ch v.e v.f v.g + k2 w t + W
  let T₂ := p.bigSigma0.rotations v.a + maj v.a v.b v.c
  ⟨T₁ + T₂, v.a, v.b, v.c, v.d + T₁, v.e, v.f, v.g⟩

/-- Initial word `i`: bits of the square root of prime `i`. -/
def h2 (w i : ℕ) : BitVec w := fractionalRoot 2 w (primes.getD i 0)

/-- A SHA-2 function. -/
def algorithm2 (w : ℕ) (p : Parameters) : Algorithm w (Words8 w) where
  initial := ⟨h2 w 0, h2 w 1, h2 w 2, h2 w 3, h2 w 4, h2 w 5, h2 w 6, h2 w 7⟩
  rounds := p.rounds
  schedule := schedule2 p
  round := round2 p
  add v H := ⟨v.a + H.a, v.b + H.b, v.c + H.c, v.d + H.d, v.e + H.e, v.f + H.f, v.g + H.g,
    v.h + H.h⟩
  words H := [H.a, H.b, H.c, H.d, H.e, H.f, H.g, H.h]

/-- The parameters of SHA-256. -/
def parameters256 : Parameters := ⟨⟨2, 13, 22⟩, ⟨6, 11, 25⟩, ⟨7, 18, 3⟩, ⟨17, 19, 10⟩, 64⟩

/-- The parameters of SHA-512. -/
def parameters512 : Parameters := ⟨⟨28, 34, 39⟩, ⟨14, 18, 41⟩, ⟨1, 8, 7⟩, ⟨19, 61, 6⟩, 80⟩

/-- SHA-256 of a bit string. -/
def sha256 (m : List Bool) : List Bool := (algorithm2 32 parameters256).hash m

/-- SHA-512 of a bit string. -/
def sha512 (m : List Bool) : List Bool := (algorithm2 64 parameters512).hash m

end Fips180
