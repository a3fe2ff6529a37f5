import RaCommon.Library.BitString

set_option relaxedAutoImplicit false
set_option autoImplicit false

/-!
# Regrouping bits in an accumulator

A codec that cuts a stream of bits into groups of another width shifts the bits it reads into a
32-bit integer from the right, and takes groups out of it by a shift to the right and a mask. The
integer is often signed and never cleared, so that old bits run out of it on the left; only its
lowest bits, those that are pending, mean anything.

## Main definitions

* `BitAccumulator.Holds` — the lowest bits of an accumulator are a given bit string.
* `BitAccumulator.mask` — the mask of the lowest bits.

## Main results

* `BitAccumulator.Holds.shiftIn` — shifting bits in appends them to those that are pending.
* `BitAccumulator.Holds.toNat_group`, `BitAccumulator.Holds.toNat_take`,
  `BitAccumulator.Holds.ofNat_byte` — the group that is taken out.
* `BitAccumulator.Holds.toNat_fill` — the last group, filled up with zero bits.
-/

namespace BitAccumulator

open BitString

/-- The lowest bits of an accumulator are `pending`. -/
def Holds (x : BitVec 32) (pending : List Bool) : Prop :=
  x.toNat % 2 ^ pending.length = toNat pending

/-- The mask of the `w` lowest bits. -/
def mask (w : ℕ) : BitVec 32 := BitVec.ofNat 32 (2 ^ w - 1)

/-- What a mask leaves of a number. -/
lemma toNat_and_mask (x : BitVec 32) {w : ℕ} (hw : w ≤ 32) :
    (x &&& mask w).toNat = x.toNat % 2 ^ w := by
  have hpow : 2 ^ w ≤ 2 ^ 32 := Nat.pow_le_pow_right (by norm_num) hw
  have hpos : 0 < 2 ^ w := by positivity
  rw [mask, BitVec.toNat_and, BitVec.toNat_ofNat, Nat.mod_eq_of_lt (by omega)]
  exact Nat.and_two_pow_sub_one_eq_mod _ w

/-- The arithmetic shift of a signed accumulator and a mask give the `w` bits above the lowest
`k`. -/
lemma toNat_shift_mask (x : BitVec 32) {k w : ℕ} (h : k + w ≤ 32) :
    (x.sshiftRight k &&& mask w).toNat = x.toNat / 2 ^ k % 2 ^ w := by
  have hbits : x.sshiftRight k &&& mask w = (x >>> k) &&& mask w := by
    ext i hi
    rw [BitVec.getElem_and, BitVec.getElem_and, BitVec.getElem_sshiftRight,
      BitVec.getElem_ushiftRight]
    by_cases hlow : i < w
    · -- the sign bit is shifted in above the mask only
      rw [dif_pos (by omega), BitVec.getLsbD_eq_getElem (show k + i < 32 by omega)]
    · have hmask : (mask w)[i] = false := by
        rw [← BitVec.getLsbD_eq_getElem hi, mask, BitVec.getLsbD_ofNat,
          Nat.testBit_two_pow_sub_one, decide_eq_false hlow, Bool.and_false]
      rw [hmask, Bool.and_false, Bool.and_false]
  rw [hbits, toNat_and_mask _ (by omega), BitVec.toNat_ushiftRight, Nat.shiftRight_eq_div_pow]

namespace Holds

variable {x : BitVec 32} {pending : List Bool}

/-- No bits are pending. -/
lemma nil (x : BitVec 32) : Holds x [] := by simp [Holds, Nat.mod_one]

/-- **Shifting a `w`-bit value in** appends its bits. -/
theorem shiftIn (h : Holds x pending) {v w : ℕ} (hv : v < 2 ^ w)
    (hlen : pending.length + w ≤ 32) :
    Holds ((x <<< w) ||| BitVec.ofNat 32 v) (pending ++ ofNat w v) := by
  have hpow : 2 ^ w ≤ 2 ^ (pending.length + w) := Nat.pow_le_pow_right (by norm_num) (by omega)
  have hpow' : 2 ^ (pending.length + w) ≤ 2 ^ 32 := Nat.pow_le_pow_right (by norm_num) hlen
  have hshift : x.toNat <<< w % 2 ^ (pending.length + w) = (toNat pending) <<< w := by
    rw [Nat.shiftLeft_eq, Nat.shiftLeft_eq, pow_add, Nat.mul_mod_mul_right, h]
  rw [Holds, List.length_append, length_ofNat, BitVec.toNat_or, BitVec.toNat_shiftLeft,
    BitVec.toNat_ofNat, Nat.mod_eq_of_lt (a := v) (by omega), Nat.or_mod_two_pow,
    Nat.mod_mod_of_dvd _ (Nat.pow_dvd_pow 2 hlen), hshift, Nat.mod_eq_of_lt (a := v) (by omega),
    ← Nat.shiftLeft_add_eq_or_of_lt hv, Nat.shiftLeft_eq, toNat_append, length_ofNat, toNat_ofNat,
    Nat.mod_eq_of_lt hv]

/-- **Taking the first pending bits out.** -/
theorem toNat_group {g rest : List Bool} (h : Holds x (g ++ rest))
    (hlen : rest.length + g.length ≤ 32) :
    (x.sshiftRight rest.length &&& mask g.length).toNat = toNat g := by
  have hlt := toNat_lt rest
  rw [toNat_shift_mask x hlen, ← Nat.mod_mul_right_div_self, ← pow_add, Nat.add_comm,
    ← List.length_append, h, toNat_append, Nat.mul_comm, Nat.mul_add_div (by positivity),
    Nat.div_eq_of_lt hlt, Nat.add_zero]

/-- The bits after those taken out are still pending. -/
lemma rest {g rest : List Bool} (h : Holds x (g ++ rest)) : Holds x rest := by
  have hdvd : 2 ^ rest.length ∣ 2 ^ (g ++ rest).length :=
    Nat.pow_dvd_pow 2 (by rw [List.length_append]; omega)
  rw [Holds, ← Nat.mod_mod_of_dvd _ hdvd, h, toNat_append, Nat.mul_comm, Nat.mul_add_mod,
    Nat.mod_eq_of_lt (toNat_lt rest)]

/-- The first `w` of the pending bits. -/
theorem toNat_take (h : Holds x pending) {w : ℕ} (hw : w ≤ pending.length)
    (h32 : pending.length ≤ 32) :
    (x.sshiftRight (pending.length - w) &&& mask w).toNat = toNat (pending.take w) := by
  have htake : (pending.take w).length = w := by rw [List.length_take]; omega
  have hdrop : (pending.drop w).length = pending.length - w := List.length_drop
  rw [← List.take_append_drop w pending] at h
  have hgroup := h.toNat_group (by omega)
  rwa [htake, hdrop] at hgroup

/-- The others are still pending. -/
lemma drop (h : Holds x pending) (w : ℕ) : Holds x (pending.drop w) := by
  rw [← List.take_append_drop w pending] at h
  exact h.rest

/-- **Taking a byte out** of the pending bits. -/
theorem ofNat_byte (h : Holds x pending) (h8 : 8 ≤ pending.length) (h32 : pending.length ≤ 32) :
    ofNat 8 (UInt8.ofNat (x.sshiftRight (pending.length - 8) &&& mask 8).toNat).toNat =
      pending.take 8 := by
  have htake : (pending.take 8).length = 8 := by rw [List.length_take]; omega
  have hlt := toNat_lt (pending.take 8)
  have hback := ofNat_toNat (pending.take 8)
  rw [htake] at hlt hback
  rw [h.toNat_take h8 h32, UInt8.toNat_ofNat', Nat.mod_eq_of_lt hlt, hback]

/-- **Filling an incomplete group up with zero bits.** -/
theorem toNat_fill (h : Holds x pending) {k : ℕ} (hlen : pending.length + k ≤ 32) :
    ((x <<< k) &&& mask (pending.length + k)).toNat =
      toNat (pending ++ List.replicate k false) := by
  rw [toNat_and_mask _ hlen, BitVec.toNat_shiftLeft, Nat.mod_mod_of_dvd _ (Nat.pow_dvd_pow 2 hlen),
    Nat.shiftLeft_eq, pow_add, Nat.mul_mod_mul_right, h, toNat_append_replicate_false]

end Holds

end BitAccumulator
