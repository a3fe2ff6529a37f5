import RaCommon.Library.Fips180
import RaCommon.Runtime.Outcome

set_option relaxedAutoImplicit false
set_option autoImplicit false

/-!
# SHA-1, SHA-256 and SHA-512 (`crypto/sha.hpp`)

The three functions share their frame: the message is padded byte by byte in a copy, a loop runs
over the chunks of the padded buffer, each chunk's words are loaded and extended in an array,
the rounds run on local variables, and the digest is written byte by byte. `sha` is that frame
over a `Variant`, which holds what a function has of its own. Every read of the padded buffer,
of the array of words and of the table of constants is checked, so that a call that returns has
read inside all three.

## Main definitions

* `RaCommon.Sha.Variant`, `RaCommon.Sha.sha` — the frame.
* `RaCommon.Sha.sha1`, `RaCommon.Sha.sha256`, `RaCommon.Sha.sha512` — the three functions.

## Main results

* `RaCommon.Sha.Refines.sha_total` — every message has a digest.
* `RaCommon.Sha.Refines.sha_eq` — the digest is the standard's.
* `RaCommon.Sha.sha_fips180` — both, for the three functions.
-/

namespace RaCommon.Sha

open BitString Fips180

/-! ## The frame -/

/-- `RotR32` and `RotR64`. -/
def rotR {w : ℕ} (x : BitVec w) (n : ℕ) : BitVec w := (x >>> n) ||| (x <<< (w - n))

/-- `RotL32`. -/
def rotL32 (x : BitVec 32) (n : ℕ) : BitVec 32 := (x <<< n) ||| (x >>> (32 - n))

/-- `static_cast<uint8_t>(x)`. -/
def lowByte {w : ℕ} (x : BitVec w) : UInt8 := ⟨x.setWidth 8⟩

/-- The bytes `static_cast<uint8_t>(x >> (i * 8))` for `i` from `n - 1` down to 0. -/
def bigEndian {w : ℕ} (n : ℕ) (x : BitVec w) : Bytes :=
  (List.range n).map fun j => lowByte (x >>> ((n - 1 - j) * 8))

/-- One more byte is one step towards the next length that is `stop` modulo `block`. -/
lemma fill_succ {block stop n : ℕ} (h : stop < block) (hn : n % block ≠ stop) :
    (block + stop - (n + 1) % block) % block + 1 = (block + stop - n % block) % block := by
  have hr : n % block < block := Nat.mod_lt _ (by omega)
  have hsucc : (n + 1) % block = (n % block + 1) % block := (Nat.mod_add_mod n block 1).symm
  rw [hsucc]
  generalize n % block = r at hn hr
  have hsmall : ∀ k < block, (block + k) % block = k := fun k hk => by
    rw [Nat.add_mod_left, Nat.mod_eq_of_lt hk]
  by_cases hlast : r + 1 = block
  · rw [hlast, Nat.mod_self, Nat.sub_zero, hsmall stop h,
      Nat.mod_eq_of_lt (by omega : block + stop - r < block)]
    omega
  · rw [Nat.mod_eq_of_lt (by omega : r + 1 < block)]
    by_cases hlt : r < stop
    · rw [show block + stop - (r + 1) = block + (stop - (r + 1)) by omega,
        show block + stop - r = block + (stop - r) by omega, hsmall _ (by omega),
        hsmall _ (by omega)]
      omega
    · rw [Nat.mod_eq_of_lt (by omega : block + stop - (r + 1) < block),
        Nat.mod_eq_of_lt (by omega : block + stop - r < block)]
      omega

/-- `while (msg.size() % block != stop) msg.push_back(0x00);` -/
def zeroFill {block stop : ℕ} (h : stop < block) (msg : Bytes) : Bytes :=
  if hstop : msg.length % block = stop then msg else zeroFill h (msg ++ [0])
termination_by (block + stop - msg.length % block) % block
decreasing_by
  rw [List.length_append, List.length_singleton, ← fill_succ h hstop]
  omega

/-- What the three functions differ in. A word has `w` bits; `V` is the type of the array `h` and
of the working variables. -/
structure Variant (w : ℕ) (V : Type) where
  /-- The number of bytes of a word. -/
  bytes : ℕ
  /-- The number of bytes of a chunk. -/
  block : ℕ
  /-- Where in its last chunk the zero bytes of the padding stop. -/
  stop : ℕ
  stop_lt : stop < block
  /-- The number of zero bytes written before the 64-bit length. -/
  high : ℕ
  /-- The initial `h`. -/
  h : V
  /-- A word of the padded buffer, from its first index. -/
  load : Bytes → ℕ → Outcome (BitVec w)
  /-- The number of rounds. -/
  rounds : ℕ
  /-- `w[i]`, from the entries before it. -/
  extend : List (BitVec w) → ℕ → Outcome (BitVec w)
  /-- Round `i` on the working variables. -/
  round : List (BitVec w) → V → ℕ → Outcome V
  /-- The additions to `h` after the rounds. -/
  add : V → V → V
  /-- `h[0]`, `h[1]`, … -/
  words : V → List (BitVec w)

section Frame

variable {w : ℕ} {V : Type} (v : Variant w V)

/-- The copy `msg` of the message with its padding. `bit_len` is a `uint64_t`. -/
def padded (data : Bytes) : Bytes :=
  let bitLen := BitVec.ofNat 64 data.length * 8
  zeroFill v.stop_lt (data ++ [0x80]) ++ List.replicate v.high 0 ++ bigEndian 8 bitLen

/-- The array `w` of a chunk: sixteen words loaded, the rest computed. -/
def schedule (msg : Bytes) (chunk : ℕ) : Outcome (List (BitVec w)) := do
  let w ← (List.range' 0 16).foldlM
    (fun w i => do .ok (w ++ [← v.load msg (chunk + i * v.bytes)])) []
  (List.range' 16 (v.rounds - 16)).foldlM (fun w i => do .ok (w ++ [← v.extend w i])) w

/-- The body of the chunk loop. -/
def hashChunk (msg : Bytes) (h : V) (chunk : ℕ) : Outcome V := do
  let w ← schedule v msg chunk
  let vars ← (List.range v.rounds).foldlM (v.round w) h
  .ok (v.add h vars)

/-- `for (size_t chunk = 0; chunk < msg.size(); chunk += block)`. -/
def chunkLoop (msg : Bytes) (h : V) (chunk : ℕ) : Outcome V :=
  if chunk < msg.length then do
    let h' ← hashChunk v msg h chunk
    chunkLoop msg h' (chunk + v.block)
  else .ok h
termination_by msg.length - chunk
decreasing_by
  have := v.stop_lt
  omega

/-- The digest of a byte sequence. -/
def sha (data : Bytes) : Outcome Bytes := do
  let h ← chunkLoop v (padded v data) v.h 0
  .ok ((v.words h).flatMap (bigEndian v.bytes))

end Frame

/-! ## The three functions -/

/-- The bytes of `Sha1` and `Sha256` shifted into a `uint32_t`. -/
def load32 (msg : Bytes) (i : ℕ) : Outcome (BitVec 32) := do
  let b0 ← readAt msg i
  let b1 ← readAt msg (i + 1)
  let b2 ← readAt msg (i + 2)
  let b3 ← readAt msg (i + 3)
  .ok ((b0.toBitVec.setWidth 32 <<< 24) ||| (b1.toBitVec.setWidth 32 <<< 16) |||
    (b2.toBitVec.setWidth 32 <<< 8) ||| b3.toBitVec.setWidth 32)

/-- The loop of `Sha512` over the bytes of a `uint64_t`. -/
def load64 (msg : Bytes) (i : ℕ) : Outcome (BitVec 64) :=
  (List.range 8).foldlM
    (fun v j => do .ok ((v <<< 8) ||| (← readAt msg (i + j)).toBitVec.setWidth 64)) 0

/-- `w[i]` of `Sha1`. -/
def extend1 (w : List (BitVec 32)) (i : ℕ) : Outcome (BitVec 32) := do
  .ok (rotL32 ((← readAt w (i - 3)) ^^^ (← readAt w (i - 8)) ^^^ (← readAt w (i - 14)) ^^^
    (← readAt w (i - 16))) 1)

/-- A round of `Sha1`. -/
def sha1Round (w : List (BitVec 32)) (v : Words5) (i : ℕ) : Outcome Words5 := do
  let ⟨a, b, c, d, e⟩ := v
  let (f, k) : BitVec 32 × BitVec 32 :=
    if i < 20 then ((b &&& c) ||| (~~~b &&& d), 0x5A827999)
    else if i < 40 then (b ^^^ c ^^^ d, 0x6ED9EBA1)
    else if i < 60 then ((b &&& c) ||| (b &&& d) ||| (c &&& d), 0x8F1BBCDC)
    else (b ^^^ c ^^^ d, 0xCA62C1D6)
  let temp := rotL32 a 5 + f + e + k + (← readAt w i)
  .ok ⟨temp, a, rotL32 b 30, c, d⟩

/-- What `Sha1` has of its own. -/
def variant1 : Variant 32 Words5 where
  bytes := 4
  block := 64
  stop := 56
  stop_lt := by norm_num
  high := 0
  h := ⟨0x67452301, 0xEFCDAB89, 0x98BADCFE, 0x10325476, 0xC3D2E1F0⟩
  load := load32
  rounds := 80
  extend := extend1
  round := sha1Round
  add h v := ⟨h.a + v.a, h.b + v.b, h.c + v.c, h.d + v.d, h.e + v.e⟩
  words h := [h.a, h.b, h.c, h.d, h.e]

/-- `w[i]` of `Sha256` and `Sha512`. -/
def extend2 {n : ℕ} (p : Parameters) (w : List (BitVec n)) (i : ℕ) : Outcome (BitVec n) := do
  let x ← readAt w (i - 15)
  let s0 := rotR x p.smallSigma0.fst ^^^ rotR x p.smallSigma0.snd ^^^ (x >>> p.smallSigma0.thd)
  let y ← readAt w (i - 2)
  let s1 := rotR y p.smallSigma1.fst ^^^ rotR y p.smallSigma1.snd ^^^ (y >>> p.smallSigma1.thd)
  .ok ((← readAt w (i - 16)) + s0 + (← readAt w (i - 7)) + s1)

/-- A round of `Sha256` and `Sha512`. -/
def sha2Round {n : ℕ} (p : Parameters) (k : List (BitVec n)) (w : List (BitVec n)) (v : Words8 n)
    (i : ℕ) : Outcome (Words8 n) := do
  let ⟨a, b, c, d, e, f, g, hh⟩ := v
  let s1 := rotR e p.bigSigma1.fst ^^^ rotR e p.bigSigma1.snd ^^^ rotR e p.bigSigma1.thd
  let ch := (e &&& f) ^^^ (~~~e &&& g)
  let temp1 := hh + s1 + ch + (← readAt k i) + (← readAt w i)
  let s0 := rotR a p.bigSigma0.fst ^^^ rotR a p.bigSigma0.snd ^^^ rotR a p.bigSigma0.thd
  let maj := (a &&& b) ^^^ (a &&& c) ^^^ (b &&& c)
  let temp2 := s0 + maj
  .ok ⟨temp1 + temp2, a, b, c, d + temp1, e, f, g⟩

/-- `h[0] += a; …` of `Sha256` and `Sha512`. -/
def add8 {n : ℕ} (h v : Words8 n) : Words8 n :=
  ⟨h.a + v.a, h.b + v.b, h.c + v.c, h.d + v.d, h.e + v.e, h.f + v.f, h.g + v.g, h.h + v.h⟩

/-- `Sha256RoundConstants`. -/
def sha256RoundConstants : List (BitVec 32) := [
  0x428a2f98, 0x71374491, 0xb5c0fbcf, 0xe9b5dba5, 0x3956c25b, 0x59f111f1, 0x923f82a4, 0xab1c5ed5,
  0xd807aa98, 0x12835b01, 0x243185be, 0x550c7dc3, 0x72be5d74, 0x80deb1fe, 0x9bdc06a7, 0xc19bf174,
  0xe49b69c1, 0xefbe4786, 0x0fc19dc6, 0x240ca1cc, 0x2de92c6f, 0x4a7484aa, 0x5cb0a9dc, 0x76f988da,
  0x983e5152, 0xa831c66d, 0xb00327c8, 0xbf597fc7, 0xc6e00bf3, 0xd5a79147, 0x06ca6351, 0x14292967,
  0x27b70a85, 0x2e1b2138, 0x4d2c6dfc, 0x53380d13, 0x650a7354, 0x766a0abb, 0x81c2c92e, 0x92722c85,
  0xa2bfe8a1, 0xa81a664b, 0xc24b8b70, 0xc76c51a3, 0xd192e819, 0xd6990624, 0xf40e3585, 0x106aa070,
  0x19a4c116, 0x1e376c08, 0x2748774c, 0x34b0bcb5, 0x391c0cb3, 0x4ed8aa4a, 0x5b9cca4f, 0x682e6ff3,
  0x748f82ee, 0x78a5636f, 0x84c87814, 0x8cc70208, 0x90befffa, 0xa4506ceb, 0xbef9a3f7, 0xc67178f2]

/-- What `Sha256` has of its own. -/
def variant256 : Variant 32 (Words8 32) where
  bytes := 4
  block := 64
  stop := 56
  stop_lt := by norm_num
  high := 0
  h := ⟨0x6a09e667, 0xbb67ae85, 0x3c6ef372, 0xa54ff53a, 0x510e527f, 0x9b05688c, 0x1f83d9ab,
    0x5be0cd19⟩
  load := load32
  rounds := 64
  extend := extend2 ⟨⟨2, 13, 22⟩, ⟨6, 11, 25⟩, ⟨7, 18, 3⟩, ⟨17, 19, 10⟩, 64⟩
  round := sha2Round ⟨⟨2, 13, 22⟩, ⟨6, 11, 25⟩, ⟨7, 18, 3⟩, ⟨17, 19, 10⟩, 64⟩ sha256RoundConstants
  add := add8
  words h := [h.a, h.b, h.c, h.d, h.e, h.f, h.g, h.h]

/-- `Sha512RoundConstants`. -/
def sha512RoundConstants : List (BitVec 64) := [
  0x428a2f98d728ae22, 0x7137449123ef65cd, 0xb5c0fbcfec4d3b2f, 0xe9b5dba58189dbbc,
  0x3956c25bf348b538, 0x59f111f1b605d019, 0x923f82a4af194f9b, 0xab1c5ed5da6d8118,
  0xd807aa98a3030242, 0x12835b0145706fbe, 0x243185be4ee4b28c, 0x550c7dc3d5ffb4e2,
  0x72be5d74f27b896f, 0x80deb1fe3b1696b1, 0x9bdc06a725c71235, 0xc19bf174cf692694,
  0xe49b69c19ef14ad2, 0xefbe4786384f25e3, 0x0fc19dc68b8cd5b5, 0x240ca1cc77ac9c65,
  0x2de92c6f592b0275, 0x4a7484aa6ea6e483, 0x5cb0a9dcbd41fbd4, 0x76f988da831153b5,
  0x983e5152ee66dfab, 0xa831c66d2db43210, 0xb00327c898fb213f, 0xbf597fc7beef0ee4,
  0xc6e00bf33da88fc2, 0xd5a79147930aa725, 0x06ca6351e003826f, 0x142929670a0e6e70,
  0x27b70a8546d22ffc, 0x2e1b21385c26c926, 0x4d2c6dfc5ac42aed, 0x53380d139d95b3df,
  0x650a73548baf63de, 0x766a0abb3c77b2a8, 0x81c2c92e47edaee6, 0x92722c851482353b,
  0xa2bfe8a14cf10364, 0xa81a664bbc423001, 0xc24b8b70d0f89791, 0xc76c51a30654be30,
  0xd192e819d6ef5218, 0xd69906245565a910, 0xf40e35855771202a, 0x106aa07032bbd1b8,
  0x19a4c116b8d2d0c8, 0x1e376c085141ab53, 0x2748774cdf8eeb99, 0x34b0bcb5e19b48a8,
  0x391c0cb3c5c95a63, 0x4ed8aa4ae3418acb, 0x5b9cca4f7763e373, 0x682e6ff3d6b2b8a3,
  0x748f82ee5defb2fc, 0x78a5636f43172f60, 0x84c87814a1f0ab72, 0x8cc702081a6439ec,
  0x90befffa23631e28, 0xa4506cebde82bde9, 0xbef9a3f7b2c67915, 0xc67178f2e372532b,
  0xca273eceea26619c, 0xd186b8c721c0c207, 0xeada7dd6cde0eb1e, 0xf57d4f7fee6ed178,
  0x06f067aa72176fba, 0x0a637dc5a2c898a6, 0x113f9804bef90dae, 0x1b710b35131c471b,
  0x28db77f523047d84, 0x32caab7b40c72493, 0x3c9ebe0a15c9bebc, 0x431d67c49c100d4c,
  0x4cc5d4becb3e42b6, 0x597f299cfc657e2a, 0x5fcb6fab3ad6faec, 0x6c44198c4a475817]

/-- What `Sha512` has of its own. -/
def variant512 : Variant 64 (Words8 64) where
  bytes := 8
  block := 128
  stop := 112
  stop_lt := by norm_num
  high := 8
  h := ⟨0x6a09e667f3bcc908, 0xbb67ae8584caa73b, 0x3c6ef372fe94f82b, 0xa54ff53a5f1d36f1,
    0x510e527fade682d1, 0x9b05688c2b3e6c1f, 0x1f83d9abfb41bd6b, 0x5be0cd19137e2179⟩
  load := load64
  rounds := 80
  extend := extend2 ⟨⟨28, 34, 39⟩, ⟨14, 18, 41⟩, ⟨1, 8, 7⟩, ⟨19, 61, 6⟩, 80⟩
  round := sha2Round ⟨⟨28, 34, 39⟩, ⟨14, 18, 41⟩, ⟨1, 8, 7⟩, ⟨19, 61, 6⟩, 80⟩ sha512RoundConstants
  add := add8
  words h := [h.a, h.b, h.c, h.d, h.e, h.f, h.g, h.h]

/-- `Sha1`. -/
def sha1 (data : Bytes) : Outcome Bytes := sha variant1 data

/-- `Sha256`. -/
def sha256 (data : Bytes) : Outcome Bytes := sha variant256 data

/-- `Sha512`. -/
def sha512 (data : Bytes) : Outcome Bytes := sha variant512 data

/-! ## The frame is the standard's -/

/-- **What makes a variant an implementation of a hash function of the standard**: its chunk is
the block, it pads up to where the standard does, and its steps are the standard's steps. -/
structure Refines {w : ℕ} {V : Type} (v : Variant w V) (A : Algorithm w V) : Prop where
  width : w = 8 * v.bytes
  bytes_pos : 0 < v.bytes
  block : v.block = 16 * v.bytes
  stop : v.stop = 14 * v.bytes
  high : v.high + 8 = 2 * v.bytes
  load : ∀ msg pos, pos + v.bytes ≤ msg.length → v.load msg pos =
    .ok (BitVec.ofNat w (toNat (ofBytes ((msg.drop pos).take v.bytes))))
  rounds : A.rounds = v.rounds
  rounds_ge : 16 ≤ v.rounds
  schedule_lt : ∀ M, ∀ t < 16, A.schedule M t = M t
  extend : ∀ M t, 16 ≤ t → v.extend ((List.range t).map (A.schedule M)) t = .ok (A.schedule M t)
  round : ∀ W x, ∀ t < v.rounds,
    v.round ((List.range v.rounds).map W) x t = .ok (A.round t (W t) x)
  add : ∀ h x, v.add h x = A.add x h
  initial : v.h = A.initial
  words : ∀ h, v.words h = A.words h

/-! ### Padding -/

/-- The padding loop appends as many zero bytes as the distance it measures. -/
lemma zeroFill_eq {block stop : ℕ} (h : stop < block) (msg : Bytes) :
    zeroFill h msg = msg ++ List.replicate ((block + stop - msg.length % block) % block) 0 := by
  induction msg using zeroFill.induct h with
  | case1 msg hstop =>
    rw [zeroFill, dif_pos hstop, hstop, Nat.add_sub_cancel, Nat.mod_self]
    simp
  | case2 msg hstop ih =>
    rw [zeroFill, dif_neg hstop, ih, List.length_append, List.length_singleton,
      ← fill_succ h hstop, List.replicate_succ, List.append_assoc, List.singleton_append]

/-- The padding loop stops where it should. -/
lemma length_zeroFill_mod {block stop : ℕ} (h : stop < block) (msg : Bytes) :
    (zeroFill h msg).length % block = stop := by
  induction msg using zeroFill.induct h with
  | case1 msg hstop => rw [zeroFill, dif_pos hstop, hstop]
  | case2 msg hstop ih => rw [zeroFill, dif_neg hstop, ih]

/-- Zero bytes are zero bits. -/
lemma ofBytes_replicate_zero (n : ℕ) :
    ofBytes (List.replicate n 0) = List.replicate (8 * n) false := by
  induction n with
  | zero => rfl
  | succ n ih =>
    rw [List.replicate_succ, ofBytes_cons, ih, show 8 * (n + 1) = 8 + 8 * n by ring,
      List.replicate_add]
    rfl

/-- The bytes written for a word are its bits. -/
lemma ofBytes_bigEndian {w : ℕ} (n : ℕ) (x : BitVec w) :
    ofBytes (bigEndian n x) = ofNat (8 * n) x.toNat := by
  induction n with
  | zero => rfl
  | succ n ih =>
    have hfirst : (lowByte (x >>> (n * 8))).toNat = x.toNat / 2 ^ (8 * n) % 2 ^ 8 := by
      rw [lowByte, ← UInt8.toNat_toBitVec, BitVec.toNat_setWidth, BitVec.toNat_ushiftRight,
        Nat.shiftRight_eq_div_pow, Nat.mul_comm]
    have hrest : bigEndian (n + 1) x = lowByte (x >>> (n * 8)) :: bigEndian n x := by
      rw [bigEndian, List.range_succ_eq_map, List.map_cons, List.map_map, bigEndian]
      refine congrArg₂ _ (by simp) (List.map_congr_left fun j _ => ?_)
      simp only [Function.comp_apply, Nat.succ_eq_add_one]
      rw [show n + 1 - 1 - (j + 1) = n - 1 - j by omega]
    rw [hrest, ofBytes_cons, hfirst, ofNat_mod, ih, show 8 * (n + 1) = 8 + 8 * n by ring,
      ofNat_add]

@[simp] lemma length_bigEndian {w : ℕ} (n : ℕ) (x : BitVec w) :
    (bigEndian n x).length = n := by
  simp [bigEndian]

/-- A number that fits in fewer bits starts with zero bits. -/
lemma ofNat_eq_replicate_append {n k x : ℕ} (hx : x < 2 ^ k) :
    ofNat (n + k) x = List.replicate n false ++ ofNat k x := by
  have hzero : ∀ m, ofNat m 0 = List.replicate m false := fun m => by
    induction m with
    | zero => rfl
    | succ m ih => rw [ofNat, ih, Nat.zero_testBit, List.replicate_succ]
  rw [ofNat_add, Nat.div_eq_of_lt hx, hzero]

namespace Refines

variable {w : ℕ} {V : Type} {v : Variant w V} {A : Algorithm w V}

/-- The padded buffer is a whole number of chunks, whatever the message. -/
lemma dvd_length_padded (h : Refines v A) (data : Bytes) : v.block ∣ (padded v data).length := by
  have hstop := length_zeroFill_mod v.stop_lt (data ++ [0x80])
  have hb := h.bytes_pos
  have hend : v.stop + (v.high + 8) = v.block := by
    rw [h.stop, h.high, h.block]
    ring
  refine Nat.dvd_of_mod_eq_zero ?_
  simp only [padded, List.length_append, List.length_replicate, length_bigEndian,
    Nat.add_assoc]
  have hsmall : v.high + 8 < v.block := by
    rw [h.high, h.block]
    omega
  rw [Nat.add_mod, hstop, Nat.mod_eq_of_lt hsmall, hend, Nat.mod_self]

/-- **The padding is the standard's**, when the length in bits does not wrap. -/
theorem ofBytes_padded (h : Refines v A) {data : Bytes} (hlen : data.length < 2 ^ 61) :
    ofBytes (padded v data) = pad w (ofBytes data) := by
  have hb := h.bytes_pos
  have hlast := length_zeroFill_mod v.stop_lt (data ++ [0x80])
  rw [zeroFill_eq, List.length_append, List.length_append, List.length_replicate,
    List.length_singleton] at hlast
  have hz := Nat.mod_lt (v.block + v.stop - (data.length + 1) % v.block)
    (show 0 < v.block by rw [h.block]; omega)
  rw [padded, zeroFill_eq, List.length_append, List.length_singleton]
  generalize (v.block + v.stop - (data.length + 1) % v.block) % v.block = z at hlast hz
  rw [h.block, h.stop] at hlast
  rw [h.block] at hz
  have hzeros : zeros w (8 * data.length) = 7 + 8 * z := by
    refine zeros_eq (by rw [h.width]; omega) (by rw [h.width]; omega) ?_
    rw [h.width, show 8 * data.length + 1 + (7 + 8 * z) = 8 * (data.length + 1 + z) by ring,
      show 16 * (8 * v.bytes) = 8 * (16 * v.bytes) by ring, Nat.mul_mod_mul_left, hlast]
    ring
  have hbits : (BitVec.ofNat 64 data.length * 8).toNat = 8 * data.length := by
    have height : (8 : BitVec 64).toNat = 8 := rfl
    rw [BitVec.toNat_mul, BitVec.toNat_ofNat, height, Nat.mod_eq_of_lt (by omega : _ < 2 ^ 64),
      Nat.mod_eq_of_lt (by omega), Nat.mul_comm]
  have hlength : ofNat (2 * w) (8 * data.length) =
      List.replicate (8 * v.high) false ++ ofNat 64 (8 * data.length) := by
    rw [← ofNat_eq_replicate_append (by omega)]
    have hhigh := h.high
    have hwidth := h.width
    congr 1
    omega
  have hone : ofBytes [0x80] = true :: List.replicate 7 false := by decide
  rw [ofBytes_append, ofBytes_append, ofBytes_append, ofBytes_append, ofBytes_replicate_zero,
    ofBytes_replicate_zero, ofBytes_bigEndian, hbits, hone, pad, length_ofBytes, hzeros, hlength,
    List.replicate_add]
  simp only [List.append_assoc, List.cons_append]

/-! ### One chunk -/

/-- A word loaded from the buffer is the word of the block. -/
lemma load_eq (h : Refines v A) {msg : Bytes} {chunk i : ℕ} (hi : i < 16)
    (hmsg : chunk + v.block ≤ msg.length) :
    v.load msg (chunk + i * v.bytes) =
      .ok (word w (((ofBytes msg).drop (8 * chunk)).take (16 * w)) i) := by
  have hle : (i + 1) * v.bytes ≤ 16 * v.bytes := Nat.mul_le_mul_right _ hi
  rw [Nat.succ_mul] at hle
  have hblock := h.block
  have hwidth : w * i + w ≤ 16 * w := by
    rw [h.width, show 8 * v.bytes * i = 8 * (i * v.bytes) by ring]
    omega
  have hplace : 8 * (chunk + i * v.bytes) = 8 * chunk + w * i := by
    have hw : w * i = 8 * v.bytes * i := congrArg (· * i) h.width
    rw [hw]
    ring
  rw [h.load _ _ (by omega), word, ofBytes_take, ofBytes_drop, List.drop_take, List.take_take,
    List.drop_drop, ← h.width, Nat.min_eq_left (by omega),
    hplace]

/-- **The array of words** is the message schedule. -/
theorem schedule_eq (h : Refines v A) {msg : Bytes} {chunk : ℕ}
    (hmsg : chunk + v.block ≤ msg.length) :
    schedule v msg chunk = .ok ((List.range v.rounds).map
      (A.schedule (word w (((ofBytes msg).drop (8 * chunk)).take (16 * w))))) := by
  generalize hM : word w (((ofBytes msg).drop (8 * chunk)).take (16 * w)) = M
  have hload := Outcome.foldlM_push (f := fun _ i => v.load msg (chunk + i * v.bytes))
    (g := A.schedule M) 16 0 fun i _ hi => by
      rw [h.load_eq (by omega) hmsg, hM, h.schedule_lt M i (by omega)]
  have hextend := Outcome.foldlM_push (f := v.extend) (g := A.schedule M) (v.rounds - 16) 16
    fun i hi _ => h.extend M i hi
  rw [Nat.add_sub_of_le h.rounds_ge] at hextend
  rw [schedule]
  exact Outcome.bind_eq_ok.mpr ⟨_, hload, hextend⟩

/-- **The body of the chunk loop** is the compression function. -/
theorem hashChunk_eq (h : Refines v A) {msg : Bytes} {chunk : ℕ}
    (hmsg : chunk + v.block ≤ msg.length) (H : V) :
    hashChunk v msg H chunk =
      .ok (A.compress H (((ofBytes msg).drop (8 * chunk)).take (16 * w))) := by
  generalize hM : ((ofBytes msg).drop (8 * chunk)).take (16 * w) = block
  have hrounds := Outcome.foldlM_eq_ok
    (f := v.round ((List.range v.rounds).map (A.schedule (word w block))))
    (g := fun x t => A.round t (A.schedule (word w block) t) x) (List.range v.rounds) H
    fun x t ht => h.round _ x t (List.mem_range.mp ht)
  rw [hashChunk, h.schedule_eq hmsg, hM, Outcome.ok_bind, hrounds, Outcome.ok_bind, h.add,
    Algorithm.compress, h.rounds]

/-! ### All chunks -/

/-- **The chunk loop** folds the compression function over the blocks.

**Proof sketch.** By the number of chunks left. A chunk in front of others is the first group of
the bits from its index on. -/
theorem chunkLoop_eq (h : Refines v A) {msg : Bytes} (hdvd : v.block ∣ msg.length) (H : V) :
    chunkLoop v msg H 0 = .ok ((groups (16 * w) (ofBytes msg)).foldl A.compress H) := by
  have hb := h.bytes_pos
  have hblock := h.block
  have hbits : 8 * v.block = 16 * w := by
    have hwidth := h.width
    omega
  have hloop : ∀ k chunk H, chunk + v.block * k = msg.length →
      chunkLoop v msg H chunk =
        .ok ((groups (16 * w) ((ofBytes msg).drop (8 * chunk))).foldl A.compress H) := by
    intro k
    induction k with
    | zero =>
      intro chunk H hend
      rw [Nat.mul_zero, Nat.add_zero] at hend
      rw [chunkLoop, if_neg (by omega), List.drop_of_length_le (by rw [length_ofBytes]; omega),
        groups_of_lt (by simp; omega)]
      rfl
    | succ k ih =>
      intro chunk H hend
      rw [Nat.mul_succ] at hend
      have hfirst : (((ofBytes msg).drop (8 * chunk)).take (16 * w)).length = 16 * w := by
        rw [List.length_take, List.length_drop, length_ofBytes]
        omega
      have hrest : ((ofBytes msg).drop (8 * chunk)).drop (16 * w) =
          (ofBytes msg).drop (8 * (chunk + v.block)) := by
        rw [List.drop_drop, Nat.mul_add, hbits]
      rw [chunkLoop, if_pos (by omega), h.hashChunk_eq (by omega), Outcome.ok_bind,
        ih _ _ (by omega), ← List.take_append_drop (16 * w) ((ofBytes msg).drop (8 * chunk)),
        groups_append (by omega) hfirst, List.foldl_cons, hrest, List.take_left' hfirst]
  obtain ⟨k, hk⟩ := hdvd
  rw [hloop k 0 H (by omega), Nat.mul_zero, List.drop_zero]

/-- **Every message has a digest**, of as many bytes as the words of the hash value. -/
theorem sha_total (h : Refines v A) (data : Bytes) :
    sha v data = .ok ((A.words ((groups (16 * w) (ofBytes (padded v data))).foldl A.compress
      A.initial)).flatMap (bigEndian v.bytes)) := by
  rw [sha, h.chunkLoop_eq (h.dvd_length_padded data), Outcome.ok_bind, h.words, h.initial]

/-- **The digest is the standard's.** -/
theorem sha_eq (h : Refines v A) {data : Bytes} (hlen : data.length < 2 ^ 61) :
    ∃ digest, sha v data = .ok digest ∧ ofBytes digest = A.hash (ofBytes data) := by
  refine ⟨_, h.sha_total data, ?_⟩
  have hflat : ∀ xs : List (BitVec w), ofBytes (xs.flatMap (bigEndian v.bytes)) =
      xs.flatMap fun x => ofNat w x.toNat := by
    intro xs
    induction xs with
    | nil => rfl
    | cons x xs ih =>
      rw [List.flatMap_cons, ofBytes_append, ih, ofBytes_bigEndian, ← h.width, List.flatMap_cons]
  rw [hflat, h.ofBytes_padded hlen, Algorithm.hash, Algorithm.value]

end Refines

/-! ## The three functions are the standard's -/

section Words

variable {w : ℕ}

/-- `RotR32` and `RotR64` are rotations. -/
lemma rotR_eq (x : BitVec w) {n : ℕ} (hn : n < w) : rotR x n = x.rotateRight n := by
  rw [BitVec.rotateRight_def, Nat.mod_eq_of_lt hn, rotR]

/-- `RotL32` is a rotation. -/
lemma rotL32_eq (x : BitVec 32) {n : ℕ} (hn : n < 32) : rotL32 x n = x.rotateLeft n := by
  rw [BitVec.rotateLeft_def, Nat.mod_eq_of_lt hn, rotL32]

/-- The choice of `Sha1` is `Ch`: no bit is set on both sides of its disjunction. -/
lemma choice_eq (x y z : BitVec w) : (x &&& y) ||| (~~~x &&& z) = ch x y z := by
  ext i hi
  simp only [ch, BitVec.getElem_or, BitVec.getElem_and, BitVec.getElem_xor, BitVec.getElem_not]
  cases x[i] <;> simp

/-- The majority of `Sha1` is `Maj`. -/
lemma majority_eq (x y z : BitVec w) :
    (x &&& y) ||| (x &&& z) ||| (y &&& z) = maj x y z := by
  ext i hi
  simp only [maj, BitVec.getElem_or, BitVec.getElem_and, BitVec.getElem_xor]
  cases x[i] <;> cases y[i] <;> simp

/-- Shifting a byte in. -/
lemma shift_or_byte (x : ℕ) (b : UInt8) :
    (BitVec.ofNat w x <<< 8) ||| b.toBitVec.setWidth w = BitVec.ofNat w (x * 2 ^ 8 + b.toNat) := by
  have hor : x * 2 ^ 8 + b.toNat = x <<< 8 ||| b.toNat := by
    rw [← Nat.shiftLeft_eq, Nat.shiftLeft_add_eq_or_of_lt b.toNat_lt]
  apply BitVec.eq_of_toNat_eq
  rw [hor, BitVec.toNat_or, BitVec.toNat_shiftLeft, BitVec.toNat_setWidth, BitVec.toNat_ofNat,
    BitVec.toNat_ofNat, Nat.or_mod_two_pow, Nat.shiftLeft_eq, Nat.shiftLeft_eq, Nat.mod_mul_mod,
    UInt8.toNat_toBitVec]

end Words

/-- The bytes from a place in the buffer, one more at a time. -/
lemma toNat_ofBytes_take_succ {msg : Bytes} {pos j : ℕ} (h : pos + j < msg.length) :
    toNat (ofBytes ((msg.drop pos).take (j + 1))) =
      toNat (ofBytes ((msg.drop pos).take j)) * 2 ^ 8 + msg[pos + j].toNat := by
  have hj : j < (msg.drop pos).length := by
    rw [List.length_drop]
    omega
  rw [List.take_succ_eq_append_getElem hj, ofBytes_append, toNat_append, length_ofBytes,
    List.getElem_drop, toNat_ofBytes_cons]
  simp

/-- The loop of `Sha512` over any number of bytes. -/
lemma foldlM_shift {w : ℕ} (msg : Bytes) (pos n : ℕ) (h : pos + n ≤ msg.length) :
    (List.range n).foldlM
      (fun (v : BitVec w) j => (do
        .ok ((v <<< 8) ||| (← readAt msg (pos + j)).toBitVec.setWidth w) : Outcome (BitVec w))) 0 =
      .ok (BitVec.ofNat w (toNat (ofBytes ((msg.drop pos).take n)))) := by
  induction n with
  | zero => rfl
  | succ n ih =>
    rw [List.range_succ, List.foldlM_append, ih (by omega), Outcome.ok_bind, List.foldlM_cons,
      readAt_eq_ok (by omega), Outcome.ok_bind, Outcome.ok_bind, shift_or_byte,
      ← toNat_ofBytes_take_succ (by omega)]
    rfl

/-- The words of `Sha1` and `Sha256`. -/
lemma load32_eq (msg : Bytes) (pos : ℕ) (h : pos + 4 ≤ msg.length) :
    load32 msg pos = .ok (BitVec.ofNat 32 (toNat (ofBytes ((msg.drop pos).take 4)))) := by
  have hshift : ∀ a b c d : BitVec 32, (a <<< 24) ||| (b <<< 16) ||| (c <<< 8) ||| d =
      (((((0 : BitVec 32) <<< 8 ||| a) <<< 8) ||| b) <<< 8 ||| c) <<< 8 ||| d := by
    intro a b c d
    simp only [BitVec.shiftLeft_or_distrib, ← BitVec.shiftLeft_add]
    simp
  rw [← foldlM_shift msg pos 4 h, load32, readAt_eq_ok (by omega : pos < msg.length),
    readAt_eq_ok (by omega : pos + 1 < msg.length), readAt_eq_ok (by omega : pos + 2 < msg.length),
    readAt_eq_ok (by omega : pos + 3 < msg.length)]
  simp only [Outcome.ok_bind, hshift, List.range_succ, List.range_zero, List.nil_append,
    List.cons_append, List.foldlM_cons, List.foldlM_nil, Nat.add_zero,
    readAt_eq_ok (by omega : pos < msg.length), readAt_eq_ok (by omega : pos + 1 < msg.length),
    readAt_eq_ok (by omega : pos + 2 < msg.length), readAt_eq_ok (by omega : pos + 3 < msg.length),
    Outcome.pure_eq]

/-- The schedule of `Sha1`. -/
lemma extend1_eq (M : ℕ → BitVec 32) (t : ℕ) (ht : 16 ≤ t) :
    extend1 ((List.range t).map (schedule1 M)) t = .ok (schedule1 M t) := by
  rw [extend1, readAt_map_range (by omega), readAt_map_range (by omega),
    readAt_map_range (by omega), readAt_map_range (by omega)]
  simp only [Outcome.ok_bind]
  rw [rotL32_eq _ (by norm_num), schedule1.eq_def M t, if_neg (by omega)]

/-- A round of `Sha1`: its four ranges of `t` have the standard's functions and constants. -/
lemma sha1Round_eq (W : ℕ → BitVec 32) (x : Words5) (t : ℕ) (ht : t < 80) :
    sha1Round ((List.range 80).map W) x t = .ok (round1 t (W t) x) := by
  rw [sha1Round, readAt_map_range ht]
  simp only [Outcome.ok_bind, rotL32_eq _ (show 5 < 32 by norm_num),
    rotL32_eq _ (show 30 < 32 by norm_num), choice_eq, majority_eq, round1, f1, k1]
  by_cases h20 : t < 20
  · simp only [h20, if_true]
  · by_cases h40 : t < 40
    · simp only [h20, h40, if_true, if_false, parity]
    · by_cases h60 : t < 60
      · simp only [h20, h40, h60, if_true, if_false]
      · simp only [h20, h40, h60, if_false, parity]

/-- `Sha1` implements SHA-1. -/
lemma refines1 : Refines variant1 algorithm1 where
  width := rfl
  bytes_pos := by decide
  block := rfl
  stop := rfl
  high := rfl
  load := load32_eq
  rounds := rfl
  rounds_ge := by decide
  schedule_lt M t ht := by
    change schedule1 M t = M t
    rw [schedule1, if_pos ht]
  extend := extend1_eq
  round := sha1Round_eq
  add h x := by
    simp only [variant1, algorithm1, BitVec.add_comm]
  initial := rfl
  words _ := rfl

/-- The first primes. -/
lemma primes_eq : primes = [
    2, 3, 5, 7, 11, 13, 17, 19, 23, 29, 31, 37, 41, 43, 47, 53, 59, 61, 67, 71, 73, 79, 83, 89, 97,
    101, 103, 107, 109, 113, 127, 131, 137, 139, 149, 151, 157, 163, 167, 173, 179, 181, 191, 193,
    197, 199, 211, 223, 227, 229, 233, 239, 241, 251, 257, 263, 269, 271, 277, 281, 283, 293, 307,
    311, 313, 317, 331, 337, 347, 349, 353, 359, 367, 373, 379, 383, 389, 397, 401, 409] := by
  decide +kernel

/-- `Sha256RoundConstants` holds the standard's constants. -/
lemma sha256RoundConstants_eq : sha256RoundConstants = (List.range 64).map (k2 32) := by
  unfold k2
  rw [primes_eq]
  decide +kernel

/-- `Sha512RoundConstants` holds the standard's constants. -/
lemma sha512RoundConstants_eq : sha512RoundConstants = (List.range 80).map (k2 64) := by
  unfold k2
  rw [primes_eq]
  decide +kernel

/-- Every rotation of the parameters is by less than the width. -/
structure Fits (w : ℕ) (p : Parameters) : Prop where
  bigSigma0 : p.bigSigma0.fst < w ∧ p.bigSigma0.snd < w ∧ p.bigSigma0.thd < w
  bigSigma1 : p.bigSigma1.fst < w ∧ p.bigSigma1.snd < w ∧ p.bigSigma1.thd < w
  smallSigma0 : p.smallSigma0.fst < w ∧ p.smallSigma0.snd < w
  smallSigma1 : p.smallSigma1.fst < w ∧ p.smallSigma1.snd < w

section Sha2

variable {w : ℕ} {p : Parameters} (hp : Fits w p)
include hp

/-- The schedule of `Sha256` and `Sha512`. -/
lemma extend2_eq (M : ℕ → BitVec w) (t : ℕ) (ht : 16 ≤ t) :
    extend2 p ((List.range t).map (schedule2 p M)) t = .ok (schedule2 p M t) := by
  rw [extend2, readAt_map_range (by omega), readAt_map_range (by omega),
    readAt_map_range (by omega), readAt_map_range (by omega)]
  simp only [Outcome.ok_bind, rotR_eq _ hp.smallSigma0.1, rotR_eq _ hp.smallSigma0.2,
    rotR_eq _ hp.smallSigma1.1, rotR_eq _ hp.smallSigma1.2]
  rw [schedule2.eq_def p M t, if_neg (by omega)]
  simp only [Distances.shifts]
  congr 1
  ac_rfl

/-- A round of `Sha256` and `Sha512`. -/
lemma sha2Round_eq {n : ℕ} (W : ℕ → BitVec w) (x : Words8 w) (t : ℕ) (ht : t < n) :
    sha2Round p ((List.range n).map (k2 w)) ((List.range n).map W) x t =
      .ok (round2 p t (W t) x) := by
  rw [sha2Round, readAt_map_range ht, readAt_map_range ht]
  simp only [Outcome.ok_bind, rotR_eq _ hp.bigSigma0.1, rotR_eq _ hp.bigSigma0.2.1,
    rotR_eq _ hp.bigSigma0.2.2, rotR_eq _ hp.bigSigma1.1, rotR_eq _ hp.bigSigma1.2.1,
    rotR_eq _ hp.bigSigma1.2.2]
  rfl

end Sha2

/-- The first sixteen entries of the schedule are the block's words. -/
lemma schedule2_lt {w : ℕ} {p : Parameters} (M : ℕ → BitVec w) (t : ℕ) (ht : t < 16) :
    schedule2 p M t = M t := by
  rw [schedule2, if_pos ht]

/-- The additions commute. -/
lemma add8_eq {w : ℕ} (p : Parameters) (h x : Words8 w) :
    add8 h x = (algorithm2 w p).add x h := by
  simp only [add8, algorithm2, BitVec.add_comm]

/-- `Sha256` implements SHA-256. -/
lemma refines256 : Refines variant256 (algorithm2 32 parameters256) where
  width := rfl
  bytes_pos := by decide
  block := rfl
  stop := rfl
  high := rfl
  load := load32_eq
  rounds := rfl
  rounds_ge := by decide
  schedule_lt := schedule2_lt
  extend := extend2_eq ⟨by decide, by decide, by decide, by decide⟩
  round W x t ht := by
    change sha2Round parameters256 sha256RoundConstants _ x t = _
    rw [sha256RoundConstants_eq]
    exact sha2Round_eq ⟨by decide, by decide, by decide, by decide⟩ W x t ht
  add := add8_eq _
  initial := by
    unfold algorithm2 h2
    rw [primes_eq]
    decide +kernel
  words _ := rfl

/-- `Sha512` implements SHA-512. -/
lemma refines512 : Refines variant512 (algorithm2 64 parameters512) where
  width := rfl
  bytes_pos := by decide
  block := rfl
  stop := rfl
  high := rfl
  load msg pos h := foldlM_shift msg pos 8 h
  rounds := rfl
  rounds_ge := by decide
  schedule_lt := schedule2_lt
  extend := extend2_eq ⟨by decide, by decide, by decide, by decide⟩
  round W x t ht := by
    change sha2Round parameters512 sha512RoundConstants _ x t = _
    rw [sha512RoundConstants_eq]
    exact sha2Round_eq ⟨by decide, by decide, by decide, by decide⟩ W x t ht
  add := add8_eq _
  initial := by
    unfold algorithm2 h2
    rw [primes_eq]
    decide +kernel
  words _ := rfl

/-- **The three digests are the standard's**, for every message whose length in bits does not
wrap; every read of the calls is inside its container.

**Proof sketch.** Each function is the shared frame over its own steps, and the steps are the
standard's (`refines1`, `refines256`, `refines512`); the frame pads as the standard does and
folds the compression function over the blocks (`Refines.sha_eq`). -/
theorem sha_fips180 (data : Bytes) (hlen : data.length < 2 ^ 61) :
    (∃ digest, sha1 data = .ok digest ∧ ofBytes digest = Fips180.sha1 (ofBytes data)) ∧
      (∃ digest, sha256 data = .ok digest ∧ ofBytes digest = Fips180.sha256 (ofBytes data)) ∧
      ∃ digest, sha512 data = .ok digest ∧ ofBytes digest = Fips180.sha512 (ofBytes data) :=
  ⟨refines1.sha_eq hlen, refines256.sha_eq hlen, refines512.sha_eq hlen⟩

/-- The message `abc`. -/
theorem sha_fips180_abc :
    (∃ digest, sha1 (str "abc") = .ok digest ∧
        ofBytes digest = Fips180.sha1 (ofBytes (str "abc"))) ∧
      (∃ digest, sha256 (str "abc") = .ok digest ∧
        ofBytes digest = Fips180.sha256 (ofBytes (str "abc"))) ∧
      ∃ digest, sha512 (str "abc") = .ok digest ∧
        ofBytes digest = Fips180.sha512 (ofBytes (str "abc")) :=
  sha_fips180 (str "abc") (by decide)

/-! ## Lengths -/

/-- The bytes of words. -/
lemma length_flatMap_bigEndian {w : ℕ} (n : ℕ) (xs : List (BitVec w)) :
    (xs.flatMap (bigEndian n)).length = n * xs.length := by
  induction xs with
  | nil => simp
  | cons x xs ih =>
    rw [List.flatMap_cons, List.length_append, length_bigEndian, ih, List.length_cons, Nat.mul_succ]
    omega

/-- `Sha1` returns twenty bytes. -/
lemma sha1_total (data : Bytes) : ∃ digest, sha1 data = .ok digest ∧ digest.length = 20 :=
  ⟨_, refines1.sha_total data, length_flatMap_bigEndian 4 _⟩

/-- `Sha256` returns thirty-two bytes. -/
lemma sha256_total (data : Bytes) : ∃ digest, sha256 data = .ok digest ∧ digest.length = 32 :=
  ⟨_, refines256.sha_total data, length_flatMap_bigEndian 4 _⟩

/-- `Sha512` returns sixty-four bytes. -/
lemma sha512_total (data : Bytes) : ∃ digest, sha512 data = .ok digest ∧ digest.length = 64 :=
  ⟨_, refines512.sha_total data, length_flatMap_bigEndian 8 _⟩

end RaCommon.Sha
