import Mathlib.Data.Nat.Bitwise
import Mathlib.Data.Nat.Size
import Mathlib.Data.List.Basic
import Mathlib.Tactic.Ring
import Mathlib.Tactic.NormNum

set_option relaxedAutoImplicit false
set_option autoImplicit false

/-!
# Big-endian bit strings

Standards that regroup data (`Base64`, the secure hash standard) are written over strings of
bits, most significant bit first: bytes are laid end to end, the bits are padded, cut into
groups of another width, and each group is read as a number. This file has the bit strings and
that regrouping.

## Main definitions

* `BitString.ofNat`, `BitString.toNat` — the `w` low bits of a number, and back.
* `BitString.ofBytes` — the bits of a byte sequence.
* `BitString.groups` — a bit string cut into groups of `k` bits, an incomplete last group
  dropped.
* `BitString.leadingZeros` — the number of zero bits a bit string begins with.
* `BitString.toBytes` — the bytes of a bit string.

## Main results

* `BitString.toNat_ofNat`, `BitString.ofNat_toNat` — the two are inverse at equal width.
* `BitString.groups_append` — one group at a time; `BitString.groups_flatMap` — cutting
  undoes laying groups of one width end to end.
* `BitString.le_leadingZeros_iff` — leading zeros are a threshold on the number.
* `BitString.toBytes_ofBytes_append` — the bytes come back, whatever short tail follows them.
-/

namespace BitString

/-! ## Numbers and bits -/

/-- The `w` low bits of `n`, most significant first. -/
def ofNat : ℕ → ℕ → List Bool
  | 0, _ => []
  | w + 1, n => n.testBit w :: ofNat w n

/-- A bit string as a number, most significant bit first. -/
def toNat : List Bool → ℕ
  | [] => 0
  | b :: l => b.toNat * 2 ^ l.length + toNat l

@[simp] lemma toNat_nil : toNat [] = 0 := rfl

@[simp] lemma length_ofNat (w n : ℕ) : (ofNat w n).length = w := by
  induction w with
  | zero => rfl
  | succ w ih => simp [ofNat, ih]

/-- A string of `w` bits is a number below `2ʷ`. -/
lemma toNat_lt (l : List Bool) : toNat l < 2 ^ l.length := by
  induction l with
  | nil => simp
  | cons b l ih =>
    have hb := Bool.toNat_le b
    simp only [toNat, List.length_cons, pow_succ]
    have : b.toNat * 2 ^ l.length ≤ 1 * 2 ^ l.length := Nat.mul_le_mul_right _ hb
    omega

/-- Concatenation shifts the left part over the right one. -/
lemma toNat_append (l m : List Bool) : toNat (l ++ m) = toNat l * 2 ^ m.length + toNat m := by
  induction l with
  | nil => simp
  | cons b l ih =>
    simp only [List.cons_append, toNat, ih, List.length_append, pow_add]
    ring

/-- The number of the low bits of `n` is `n` reduced. -/
theorem toNat_ofNat (w n : ℕ) : toNat (ofNat w n) = n % 2 ^ w := by
  induction w with
  | zero => simp [ofNat, Nat.mod_one]
  | succ w ih =>
    rw [ofNat, toNat, ih, length_ofNat, Nat.mod_pow_succ, Nat.toNat_testBit]
    ring

/-- Only the low bits matter. -/
lemma ofNat_mod (w n : ℕ) : ofNat w (n % 2 ^ w) = ofNat w n := by
  have h : ∀ v ≤ w, ofNat v (n % 2 ^ w) = ofNat v n := by
    intro v
    induction v with
    | zero => intro _; rfl
    | succ v ih =>
      intro hv
      rw [ofNat, ofNat, ih (by omega), Nat.testBit_mod_two_pow]
      simp [show v < w by omega]
  exact h w le_rfl

/-- The bits of a number are the bits of its high part followed by those of its low part. -/
lemma ofNat_add (v w n : ℕ) : ofNat (v + w) n = ofNat v (n / 2 ^ w) ++ ofNat w n := by
  induction v with
  | zero => simp [ofNat]
  | succ v ih =>
    rw [show v + 1 + w = (v + w) + 1 by omega, ofNat, ih, ofNat, List.cons_append,
      Nat.testBit_div_two_pow]

/-- **Reading a bit string and writing it back** changes nothing. -/
theorem ofNat_toNat (l : List Bool) : ofNat l.length (toNat l) = l := by
  induction l with
  | nil => rfl
  | cons b l ih =>
    have hlt := toNat_lt l
    have htail : ofNat l.length (toNat (b :: l)) = l := by
      rw [← ofNat_mod, toNat, Nat.mul_comm, Nat.mul_add_mod, Nat.mod_eq_of_lt hlt, ih]
    have hhead : (toNat (b :: l)).testBit l.length = b := by
      rw [toNat, Nat.testBit_eq_decide_div_mod_eq, Nat.mul_comm,
        Nat.mul_add_div (by positivity), Nat.div_eq_of_lt hlt]
      cases b <;> simp
    rw [List.length_cons, ofNat, hhead, htail]

/-- Strings of one length that are the same number are the same string. -/
lemma eq_of_toNat_eq {l m : List Bool} (hlen : l.length = m.length) (h : toNat l = toNat m) :
    l = m := by
  rw [← ofNat_toNat l, ← ofNat_toNat m, hlen, h]

/-- The first bits of a string are the high part of its number. -/
theorem toNat_take (l : List Bool) (k : ℕ) : toNat (l.take k) = toNat l / 2 ^ (l.length - k) := by
  conv_rhs => rw [← List.take_append_drop k l, toNat_append]
  rw [List.length_append, List.length_take, List.length_drop]
  have hlt := toNat_lt (l.drop k)
  rw [List.length_drop] at hlt
  rw [show min k l.length + (l.length - k) - k = l.length - k by omega,
    Nat.mul_comm, Nat.mul_add_div (by positivity), Nat.div_eq_of_lt hlt, Nat.add_zero]

/-- The last bits of a string are the low part of its number. -/
lemma toNat_drop (l : List Bool) (k : ℕ) : toNat (l.drop k) = toNat l % 2 ^ (l.length - k) := by
  conv_rhs => rw [← List.take_append_drop k l, toNat_append]
  have hlt := toNat_lt (l.drop k)
  rw [List.length_drop] at hlt
  rw [List.length_append, List.length_take, List.length_drop,
    show min k l.length + (l.length - k) - k = l.length - k by omega,
    Nat.mul_comm, Nat.mul_add_mod, Nat.mod_eq_of_lt hlt]

/-! ## Regrouping -/

/-- The complete groups of `k` bits of a string, in order. -/
def groups (k : ℕ) (l : List Bool) : List (List Bool) :=
  (List.range (l.length / k)).map fun i => (l.drop (k * i)).take k

/-- A string shorter than a group has none. -/
lemma groups_of_lt {k : ℕ} {l : List Bool} (h : l.length < k) : groups k l = [] := by
  simp [groups, Nat.div_eq_of_lt h]

/-- Cutting off the first group. -/
theorem groups_append {k : ℕ} (hk : 0 < k) {g : List Bool} (hg : g.length = k) (l : List Bool) :
    groups k (g ++ l) = g :: groups k l := by
  have hlen : (g ++ l).length / k = l.length / k + 1 := by
    rw [List.length_append, hg, Nat.add_div_left _ hk]
  rw [groups, hlen, List.range_succ_eq_map, List.map_cons, List.map_map, groups]
  congr 1
  · simp [← hg]
  · refine List.map_congr_left fun i _ => ?_
    simp only [Function.comp_apply, Nat.succ_eq_add_one]
    rw [show k * (i + 1) = g.length + k * i by rw [hg]; ring, ← List.drop_drop, List.drop_left]

/-- A string of whole groups in front of another can be cut on its own. -/
lemma groups_append_of_dvd {k : ℕ} (hk : 0 < k) {l : List Bool} (hl : k ∣ l.length)
    (m : List Bool) : groups k (l ++ m) = groups k l ++ groups k m := by
  obtain ⟨q, hq⟩ := hl
  induction q generalizing l with
  | zero =>
    obtain rfl : l = [] := List.eq_nil_of_length_eq_zero (by simpa using hq)
    simp [groups_of_lt (l := []) (by simpa using hk)]
  | succ q ih =>
    rw [Nat.mul_add, Nat.mul_one] at hq
    have htake : (l.take k).length = k := by rw [List.length_take]; omega
    have hdrop : (l.drop k).length = k * q := by rw [List.length_drop]; omega
    rw [← List.take_append_drop k l, List.append_assoc, groups_append hk htake,
      groups_append hk htake, ih hdrop]
    rfl

/-- **Cutting undoes laying end to end**, and what follows the groups is cut on its own. -/
theorem groups_flatMap {α : Type} {k : ℕ} (hk : 0 < k) (f : α → List Bool)
    (hf : ∀ a, (f a).length = k) (as : List α) (l : List Bool) :
    groups k (as.flatMap f ++ l) = as.map f ++ groups k l := by
  induction as with
  | nil => rfl
  | cons a as ih =>
    rw [List.flatMap_cons, List.append_assoc, groups_append hk (hf a), ih]
    rfl

/-- Every group has the group's width. -/
lemma length_of_mem_groups {k : ℕ} {l g : List Bool} (h : g ∈ groups k l) : g.length = k := by
  simp only [groups, List.mem_map, List.mem_range] at h
  obtain ⟨i, hi, rfl⟩ := h
  have hle : k * (i + 1) ≤ l.length := by
    calc k * (i + 1) ≤ k * (l.length / k) := Nat.mul_le_mul_left k hi
      _ ≤ l.length := Nat.mul_div_le _ _
  rw [List.length_take, List.length_drop]
  rw [Nat.mul_add, Nat.mul_one] at hle
  omega

/-- The number of groups. -/
@[simp] lemma length_groups (k : ℕ) (l : List Bool) : (groups k l).length = l.length / k := by
  simp [groups]

/-- Group `i` of a string is the number's `k` bits from the right place. -/
lemma map_toNat_groups {k : ℕ} (l : List Bool) :
    (groups k l).map toNat =
      (List.range (l.length / k)).map fun i => toNat l / 2 ^ (l.length - k * (i + 1)) % 2 ^ k := by
  rw [groups, List.map_map]
  refine List.map_congr_left fun i hi => ?_
  have hle : k * (i + 1) ≤ l.length := by
    calc k * (i + 1) ≤ k * (l.length / k) := Nat.mul_le_mul_left k (List.mem_range.mp hi)
      _ ≤ l.length := Nat.mul_div_le _ _
  rw [Nat.mul_add, Nat.mul_one] at hle
  rw [Function.comp_apply, toNat_take, toNat_drop, List.length_drop,
    show l.length - k * i - k = l.length - k * (i + 1) by rw [Nat.mul_add]; omega,
    show l.length - k * i = (l.length - k * (i + 1)) + k by rw [Nat.mul_add]; omega, pow_add,
    Nat.mod_mul_right_div_self]

/-- Zero bits at the end multiply the number. -/
lemma toNat_append_replicate_false (l : List Bool) (n : ℕ) :
    toNat (l ++ List.replicate n false) = toNat l * 2 ^ n := by
  have hzero : toNat (List.replicate n false) = 0 := by
    induction n with
    | zero => rfl
    | succ n ih => simp [List.replicate_succ, toNat, ih]
  rw [toNat_append, hzero, List.length_replicate, Nat.add_zero]

/-! ## Leading zeros -/

/-- The number of zero bits a string begins with. -/
def leadingZeros (l : List Bool) : ℕ := (l.takeWhile (! ·)).length

@[simp] lemma leadingZeros_nil : leadingZeros [] = 0 := rfl

@[simp] lemma leadingZeros_false_cons (l : List Bool) :
    leadingZeros (false :: l) = leadingZeros l + 1 := rfl

@[simp] lemma leadingZeros_true_cons (l : List Bool) : leadingZeros (true :: l) = 0 := rfl

/-- There are no more leading zeros than bits. -/
lemma leadingZeros_le (l : List Bool) : leadingZeros l ≤ l.length :=
  (List.takeWhile_sublist _).length_le

/-- **Leading zeros are a threshold on the number**: a string begins with `k` zero bits exactly when
its number has no more bits than are left after them. -/
theorem le_leadingZeros_iff {l : List Bool} {k : ℕ} (hk : k ≤ l.length) :
    k ≤ leadingZeros l ↔ toNat l < 2 ^ (l.length - k) := by
  induction l generalizing k with
  | nil =>
    obtain rfl : k = 0 := Nat.le_zero.mp hk
    simp
  | cons b l ih =>
    cases k with
    | zero => exact iff_of_true (Nat.zero_le _) (toNat_lt _)
    | succ k =>
      rw [List.length_cons] at hk ⊢
      rw [Nat.add_sub_add_right]
      cases b with
      | false =>
        rw [leadingZeros_false_cons, Nat.succ_le_succ_iff, ih (by omega), toNat, Bool.toNat_false,
          Nat.zero_mul, Nat.zero_add]
      | true =>
        have hpow : 2 ^ (l.length - k) ≤ 2 ^ l.length := Nat.pow_le_pow_right (by omega) (by omega)
        refine iff_of_false (by simp) ?_
        rw [toNat, Bool.toNat_true, Nat.one_mul]
        omega

/-- The leading zeros of a number's bits are those above its highest one. -/
lemma leadingZeros_ofNat {w n : ℕ} (h : n < 2 ^ w) : leadingZeros (ofNat w n) = w - n.size := by
  have hiff : ∀ k ≤ w, (k ≤ leadingZeros (ofNat w n) ↔ n.size ≤ w - k) := by
    intro k hk
    have hthreshold := le_leadingZeros_iff (l := ofNat w n) (k := k) (by rwa [length_ofNat])
    rwa [toNat_ofNat, Nat.mod_eq_of_lt h, length_ofNat, ← Nat.size_le] at hthreshold
  have hle := leadingZeros_le (ofNat w n)
  rw [length_ofNat] at hle
  have hsize := Nat.size_le.mpr h
  have hlow := (hiff _ hle).mp le_rfl
  have hhigh := (hiff (w - n.size) (Nat.sub_le _ _)).mpr (by omega)
  omega

/-- The leading zeros go on behind a string of zeros only. -/
lemma leadingZeros_append (l m : List Bool) :
    leadingZeros (l ++ m) = if toNat l = 0 then l.length + leadingZeros m else leadingZeros l := by
  induction l with
  | nil => simp
  | cons b l ih =>
    cases b with
    | false =>
      simp only [List.cons_append, leadingZeros_false_cons, ih, toNat, Bool.toNat_false,
        Nat.zero_mul, Nat.zero_add, List.length_cons]
      split_ifs <;> omega
    | true =>
      have hpos : toNat (true :: l) ≠ 0 := by
        rw [toNat, Bool.toNat_true, Nat.one_mul]
        have := Nat.two_pow_pos l.length
        omega
      rw [if_neg hpos]
      rfl

/-! ## Bytes -/

/-- The bits of a byte sequence. -/
def ofBytes (d : List UInt8) : List Bool := d.flatMap fun b => ofNat 8 b.toNat

/-- The bytes of a bit string; bits after the last complete byte are dropped. -/
def toBytes (l : List Bool) : List UInt8 := (groups 8 l).map fun g => UInt8.ofNat (toNat g)

@[simp] lemma ofBytes_nil : ofBytes [] = [] := rfl

@[simp] lemma ofBytes_cons (b : UInt8) (d : List UInt8) :
    ofBytes (b :: d) = ofNat 8 b.toNat ++ ofBytes d := rfl

@[simp] lemma ofBytes_append (d e : List UInt8) : ofBytes (d ++ e) = ofBytes d ++ ofBytes e := by
  simp [ofBytes]

@[simp] lemma length_ofBytes (d : List UInt8) : (ofBytes d).length = 8 * d.length := by
  induction d with
  | nil => rfl
  | cons b d ih => simp [ih]; ring

/-- The bits of the first bytes, and those after them. -/
lemma ofBytes_split {d : List UInt8} {k : ℕ} (h : k ≤ d.length) :
    ofBytes d = ofBytes (d.take k) ++ ofBytes (d.drop k) ∧
      (ofBytes (d.take k)).length = 8 * k := by
  constructor
  · rw [← ofBytes_append, List.take_append_drop]
  · rw [length_ofBytes, List.length_take, Nat.min_eq_left h]

/-- The bits after the first bytes. -/
lemma ofBytes_drop (d : List UInt8) (k : ℕ) : ofBytes (d.drop k) = (ofBytes d).drop (8 * k) := by
  by_cases h : k ≤ d.length
  · obtain ⟨hsplit, hlen⟩ := ofBytes_split h
    rw [hsplit, ← hlen, List.drop_left]
  · rw [List.drop_eq_nil_of_le (by omega),
      List.drop_eq_nil_of_le (by rw [length_ofBytes]; omega), ofBytes_nil]

/-- The bits of the first bytes. -/
lemma ofBytes_take (d : List UInt8) (k : ℕ) : ofBytes (d.take k) = (ofBytes d).take (8 * k) := by
  by_cases h : k ≤ d.length
  · obtain ⟨hsplit, hlen⟩ := ofBytes_split h
    rw [hsplit, ← hlen, List.take_left]
  · rw [List.take_of_length_le (by omega),
      List.take_of_length_le (by rw [length_ofBytes]; omega)]

/-- The number of a byte sequence, one byte at a time. -/
lemma toNat_ofBytes_cons (b : UInt8) (d : List UInt8) :
    toNat (ofBytes (b :: d)) = b.toNat * 2 ^ (8 * d.length) + toNat (ofBytes d) := by
  rw [ofBytes_cons, toNat_append, length_ofBytes, toNat_ofNat]
  congr 2
  exact Nat.mod_eq_of_lt b.toNat_lt

/-- The byte whose bits are those of `b` is `b`. -/
lemma ofNat_toNat_byte (b : UInt8) : UInt8.ofNat (toNat (ofNat 8 b.toNat)) = b := by
  simp [toNat_ofNat]

/-- **The bytes come back** from their bits, whatever bits follow that do not make a byte. -/
theorem toBytes_ofBytes_append (d : List UInt8) {l : List Bool} (h : l.length < 8) :
    toBytes (ofBytes d ++ l) = d := by
  have hlen : ∀ b : UInt8, (ofNat 8 b.toNat).length = 8 := fun b => length_ofNat 8 b.toNat
  rw [toBytes, ofBytes, groups_flatMap (by norm_num) (fun b : UInt8 => ofNat 8 b.toNat) hlen,
    groups_of_lt h, List.append_nil, List.map_map]
  conv_rhs => rw [← List.map_id d]
  exact List.map_congr_left fun b _ => ofNat_toNat_byte b

end BitString
