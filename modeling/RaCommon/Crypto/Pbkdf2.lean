import RaCommon.Crypto.Sha
import RaCommon.Library.Pkcs5

set_option relaxedAutoImplicit false
set_option autoImplicit false

/-!
# HMAC-SHA1 and PBKDF2 (`crypto/pbkdf2.hpp`)

## Main definitions

* `RaCommon.Pbkdf2.hmacSha1`, `RaCommon.Pbkdf2.pbkdf2HmacSha1` — the two functions.
* `RaCommon.Pbkdf2.prf`, `RaCommon.Pbkdf2.derived` — the standards' HMAC and PBKDF2 over this
  library's SHA-1.

## Main results

* `RaCommon.Pbkdf2.hmacSha1_eq` — the keyed hash is the standard's.
* `RaCommon.Pbkdf2.pbkdf2HmacSha1_eq` — so is the derived key, an iteration count below one
  acting as one.
* `RaCommon.Pbkdf2.pbkdf2_rfc8018` — with RFC 8018 and RFC 2104 spelled out.
-/

namespace RaCommon.Pbkdf2

open Sha

/-- `kSha1BlockSize`. -/
def kSha1BlockSize : ℕ := 64

/-- `v.resize(n, x)`. -/
def resize (v : Bytes) (n : ℕ) (x : UInt8) : Bytes := v.take n ++ List.replicate (n - v.length) x

/-- `if (key.size() > kSha1BlockSize) key = Sha1(key.data(), key.size());` -/
def shortKey (key : Bytes) : Outcome Bytes :=
  if kSha1BlockSize < key.length then sha1 key else .ok key

/-- `HmacSha1`. -/
def hmacSha1 (keyIn data : Bytes) : Outcome Bytes := do
  let key := resize (← shortKey keyIn) kSha1BlockSize 0x00
  let ipad := key.map (· ^^^ 0x36)
  let opad := key.map (· ^^^ 0x5c)
  let inner ← sha1 (ipad ++ data)
  sha1 (opad ++ inner)

/-! ## Digests of SHA-1 -/

/-- The digest `Sha1` returns. -/
def sha1Digest (data : Bytes) : Bytes :=
  match sha1 data with
  | .ok digest => digest
  | .error _ => []

/-- `Sha1` returns its digest. -/
lemma sha1_eq (data : Bytes) : sha1 data = .ok (sha1Digest data) := by
  obtain ⟨digest, h, -⟩ := sha1_total data
  rw [sha1Digest, h]

@[simp] lemma length_sha1Digest (data : Bytes) : (sha1Digest data).length = 20 := by
  obtain ⟨digest, h, hlen⟩ := sha1_total data
  rw [sha1Digest, h, hlen]

/-- The standard's HMAC over `Sha1`. -/
def prf (key data : Bytes) : Bytes := Pkcs5.hmac sha1Digest kSha1BlockSize key data

@[simp] lemma length_prf (key data : Bytes) : (prf key data).length = 20 :=
  length_sha1Digest _

/-- **The keyed hash is the standard's**, for keys of every length. -/
theorem hmacSha1_eq (key data : Bytes) : hmacSha1 key data = .ok (prf key data) := by
  obtain ⟨short, hshort, hlen, hkey⟩ : ∃ short, shortKey key = .ok short ∧
      short.length ≤ kSha1BlockSize ∧
      short = if kSha1BlockSize < key.length then sha1Digest key else key := by
    unfold shortKey
    by_cases h : kSha1BlockSize < key.length
    · rw [if_pos h, if_pos h, sha1_eq]
      exact ⟨_, rfl, by rw [length_sha1Digest]; decide, rfl⟩
    · rw [if_neg h, if_neg h]
      exact ⟨_, rfl, by omega, rfl⟩
  have hresize : resize short kSha1BlockSize 0x00 =
      Pkcs5.hmacKey sha1Digest kSha1BlockSize key := by
    rw [resize, List.take_of_length_le hlen, Pkcs5.hmacKey, ← hkey]
  rw [hmacSha1, hshort, Outcome.ok_bind]
  simp only [hresize, sha1_eq, Outcome.ok_bind]
  rfl

/-! ## PBKDF2 -/

/-- The salt with the four bytes of `block_index`. -/
def saltBlock (salt : Bytes) (blockIndex : BitVec 32) : Bytes := salt ++ bigEndian 4 blockIndex

/-- The loop over the iterations after the first, with `u` and `t` as its variables. Both are
digests, so that `t[j] ^= u[j]` reads inside `u`. -/
def iterate (pw : Bytes) (iterations : ℤ) (u : Bytes) : Outcome (Bytes × Bytes) :=
  (List.range' 1 (iterations - 1).toNat).foldlM
    (fun r _ => do
      let u ← hmacSha1 pw r.1
      .ok (u, List.zipWith (· ^^^ ·) r.2 u)) (u, u)

/-- The bytes `t` of one block. -/
def block (pw salt : Bytes) (iterations : ℤ) (blockIndex : BitVec 32) : Outcome Bytes := do
  let u ← hmacSha1 pw (saltBlock salt blockIndex)
  let r ← iterate pw iterations u
  .ok r.2

/-- The block index is written as the standard writes it. -/
lemma saltBlock_eq (salt : Bytes) (blockIndex : BitVec 32) :
    saltBlock salt blockIndex = salt ++ Pkcs5.int blockIndex.toNat := by
  have h := BitString.toBytes_ofBytes_append (bigEndian 4 blockIndex) (l := []) (by norm_num)
  rw [List.append_nil, ofBytes_bigEndian] at h
  rw [saltBlock, Pkcs5.int, h]

/-- The iterations up to any count. -/
lemma iterate_eq (pw x : Bytes) (iterations : ℤ) :
    iterate pw iterations (prf pw x) =
      .ok (Pkcs5.u (prf pw) x (iterations - 1).toNat,
        (List.range' 1 (iterations - 1).toNat).foldl
          (fun t j => Pkcs5.xorBytes t (Pkcs5.u (prf pw) x j)) (Pkcs5.u (prf pw) x 0)) := by
  have hloop : ∀ (n j : ℕ) (t : Bytes),
      (List.range' (j + 1) n).foldlM
        (fun (r : Bytes × Bytes) _ => (do
          let u ← hmacSha1 pw r.1
          .ok (u, List.zipWith (· ^^^ ·) r.2 u) : Outcome (Bytes × Bytes)))
          (Pkcs5.u (prf pw) x j, t) =
        .ok (Pkcs5.u (prf pw) x (j + n), (List.range' (j + 1) n).foldl
          (fun t j => Pkcs5.xorBytes t (Pkcs5.u (prf pw) x j)) t) := by
    intro n
    induction n with
    | zero => exact fun _ _ => rfl
    | succ n ih =>
      intro j t
      rw [List.range'_succ, List.foldlM_cons, hmacSha1_eq, Outcome.ok_bind, Outcome.ok_bind,
        List.foldl_cons, show j + (n + 1) = j + 1 + n by omega]
      exact ih (j + 1) _
  have h := hloop (iterations - 1).toNat 0 (Pkcs5.u (prf pw) x 0)
  rwa [Nat.zero_add, Nat.zero_add] at h

/-- A block is the standard's, for the iteration count the loop amounts to. -/
lemma block_eq (pw salt : Bytes) (iterations : ℤ) (blockIndex : BitVec 32) :
    block pw salt iterations blockIndex =
      .ok (Pkcs5.f (prf pw) salt (max iterations 1).toNat blockIndex.toNat) := by
  have hcount : (max iterations 1).toNat - 1 = (iterations - 1).toNat := by omega
  rw [block, hmacSha1_eq, Outcome.ok_bind, iterate_eq, Outcome.ok_bind, Pkcs5.f, hcount,
    saltBlock_eq]

/-- The loop of `Pbkdf2HmacSha1` over the blocks, and the final `resize`. -/
def outLoop (pw salt : Bytes) (iterations : ℤ) (keyLen : ℕ) (out : Bytes)
    (blockIndex : BitVec 32) : Outcome Bytes :=
  if out.length < keyLen then
    match h : block pw salt iterations blockIndex with
    | .ok t => outLoop pw salt iterations keyLen (out ++ t) (blockIndex + 1)
    | .error e => .error e
  else .ok (resize out keyLen 0)
termination_by keyLen - out.length
decreasing_by
  rw [block_eq, Except.ok.injEq] at h
  rw [List.length_append, ← h, Pkcs5.length_f (length_prf pw)]
  omega

/-- `Pbkdf2HmacSha1`. -/
def pbkdf2HmacSha1 (password : Str) (salt : Bytes) (iterations : ℤ) (keyLen : ℕ) :
    Outcome Bytes :=
  outLoop password salt iterations keyLen [] 1

/-- The standard's PBKDF2 with HMAC over `Sha1`. -/
def derived (password : Str) (salt : Bytes) (iterations keyLen : ℕ) : Bytes :=
  Pkcs5.pbkdf2 (prf password) 20 salt iterations keyLen

@[simp] lemma length_derived (password : Str) (salt : Bytes) (iterations keyLen : ℕ) :
    (derived password salt iterations keyLen).length = keyLen :=
  Pkcs5.length_pbkdf2 (by norm_num) (length_prf password) salt iterations keyLen

/-- **The derived key is the standard's**; an iteration count below one acts as one.

**Proof sketch.** By the number of blocks left: the output so far is the first blocks laid end to
end, and `block_index` is the next index modulo `2³²`, of which the standard takes the same four
octets. -/
theorem pbkdf2HmacSha1_eq (password : Str) (salt : Bytes) (iterations : ℤ) (keyLen : ℕ) :
    pbkdf2HmacSha1 password salt iterations keyLen =
      .ok (derived password salt (max iterations 1).toNat keyLen) := by
  generalize hc : (max iterations 1).toNat = c
  have hmod : ∀ i, Pkcs5.f (prf password) salt c (BitVec.ofNat 32 i).toNat =
      Pkcs5.f (prf password) salt c i := fun i => by
    rw [BitVec.toNat_ofNat, Pkcs5.f, Pkcs5.int, BitString.ofNat_mod, Pkcs5.f, Pkcs5.int]
  have hblocks := Pkcs5.length_blocks (length_prf password) salt c
  have hloop : ∀ k n, n + k = (keyLen + 20 - 1) / 20 →
      outLoop password salt iterations keyLen
        ((List.range n).flatMap fun i => Pkcs5.f (prf password) salt c (i + 1))
        (BitVec.ofNat 32 (n + 1)) = .ok (derived password salt c keyLen) := by
    intro k
    induction k with
    | zero =>
      intro n hn
      rw [outLoop, if_neg (by rw [hblocks]; omega), resize, hblocks,
        show keyLen - 20 * n = 0 by omega, List.replicate_zero, List.append_nil, derived,
        Pkcs5.pbkdf2, ← hn, Nat.add_zero]
    | succ k ih =>
      intro n hn
      have hnext : (List.range n).flatMap (fun i => Pkcs5.f (prf password) salt c (i + 1)) ++
          Pkcs5.f (prf password) salt c (n + 1) =
            (List.range (n + 1)).flatMap fun i => Pkcs5.f (prf password) salt c (i + 1) := by
        rw [List.range_succ, List.flatMap_append, List.flatMap_singleton]
      have hindex : BitVec.ofNat 32 (n + 1) + 1 = BitVec.ofNat 32 (n + 1 + 1) :=
        (BitVec.ofNat_add _ _).symm
      have hblock := block_eq password salt iterations (BitVec.ofNat 32 (n + 1))
      rw [hc, hmod] at hblock
      rw [outLoop, if_pos (by rw [hblocks]; omega)]
      split
      · next t ht =>
        rw [hblock, Except.ok.injEq] at ht
        rw [← ht, hnext, hindex]
        exact ih (n + 1) (by omega)
      · next e he =>
        rw [hblock] at he
        cases he
  exact hloop _ 0 (Nat.zero_add _)

/-- **The derived key is the one of RFC 8018**: for every iteration count from one on, and every
length, exactly that many bytes of PBKDF2 with the HMAC of RFC 2104 over `Sha1` as its
pseudorandom function. The standard itself stops at `20 * (2³² - 1)` bytes, where the block index
no longer fits its four octets. -/
theorem pbkdf2_rfc8018 (password : Str) (salt : Bytes) (iterations : ℤ) (keyLen : ℕ)
    (hiterations : 1 ≤ iterations) :
    ∃ key, pbkdf2HmacSha1 password salt iterations keyLen = .ok key ∧ key.length = keyLen ∧
      key = Pkcs5.pbkdf2 (Pkcs5.hmac sha1Digest 64 password) 20 salt iterations.toNat keyLen := by
  refine ⟨_, pbkdf2HmacSha1_eq password salt iterations keyLen, length_derived _ _ _ _, ?_⟩
  rw [max_eq_left hiterations]
  rfl

/-- `pbkdf2_rfc8018` for a key of 25 bytes, which takes two blocks. -/
theorem pbkdf2_rfc8018_twoBlocks :
    ∃ key, pbkdf2HmacSha1 (str "password") (str "salt") 2 25 = .ok key ∧ key.length = 25 ∧
      key = Pkcs5.pbkdf2 (Pkcs5.hmac sha1Digest 64 (str "password")) 20 (str "salt") 2 25 :=
  pbkdf2_rfc8018 (str "password") (str "salt") 2 25 (by decide)

end RaCommon.Pbkdf2
