import Mathlib.Data.Nat.ModEq
import RaCommon.Library.BitString

set_option relaxedAutoImplicit false
set_option autoImplicit false

/-!
# Data encodings by regrouping bits (RFC 4648)

Base64 and base32 read the bits of the data in groups of six or five, the last group filled up
with zero bits, and write one symbol for each group. This file is the standard's definition,
over any alphabet.

## Main definitions

* `BaseEncoding.symbols` — the `k`-bit groups of a byte sequence, as numbers.
* `BaseEncoding.octets` — the bytes of a sequence of `k`-bit groups, bits that do not make a
  byte dropped.
* `BaseEncoding.base64` — base64 with padding; `BaseEncoding.unpadded` — an encoding without.

## Main results

* `BaseEncoding.octets_symbols` — the bytes come back from their symbols.
* `BaseEncoding.symbols_octets_iff` — which symbols come back from their bytes.
* `BaseEncoding.symbols_append` — whole groups can be encoded on their own.
-/

namespace BaseEncoding

open BitString

/-- The `k`-bit groups of the data, the last one filled up with zero bits. -/
def symbols (k : ℕ) (data : List UInt8) : List ℕ :=
  (groups k (ofBytes data ++ List.replicate ((k - 8 * data.length % k) % k) false)).map toNat

/-- The bytes of a sequence of `k`-bit groups. -/
def octets (k : ℕ) (values : List ℕ) : List UInt8 := toBytes (values.flatMap (ofNat k))

/-- Base64: one character for each six bits, and padding to a multiple of four characters. -/
def base64 {α : Type} (alphabet : ℕ → α) (pad : α) (data : List UInt8) : List α :=
  let text := (symbols 6 data).map alphabet
  text ++ List.replicate ((4 - text.length % 4) % 4) pad

/-- Base32 and its kin without padding: one character for each `k` bits. -/
def unpadded {α : Type} (k : ℕ) (alphabet : ℕ → α) (data : List UInt8) : List α :=
  (symbols k data).map alphabet

/-- Every symbol is a `k`-bit number. -/
lemma symbols_lt {k : ℕ} (data : List UInt8) : ∀ v ∈ symbols k data, v < 2 ^ k := by
  intro v hv
  obtain ⟨g, hg, rfl⟩ := List.mem_map.mp hv
  have h := toNat_lt g
  rwa [length_of_mem_groups hg] at h

/-- The zero bits fill the data up to a multiple of the group. -/
lemma dvd_length_fill {k : ℕ} (hk : 0 < k) (n : ℕ) : k ∣ n + (k - n % k) % k := by
  have hlt := Nat.mod_lt n hk
  rcases Nat.eq_zero_or_pos (n % k) with h0 | h0
  · rw [h0, Nat.sub_zero, Nat.mod_self, Nat.add_zero]
    exact Nat.dvd_of_mod_eq_zero h0
  · rw [Nat.mod_eq_of_lt (by omega : k - n % k < k)]
    refine ⟨n / k + 1, ?_⟩
    have := Nat.mod_add_div n k
    rw [Nat.mul_add, Nat.mul_one]
    omega

/-- Data of whole groups in front of other data can be encoded on its own. -/
theorem symbols_append {k : ℕ} (hk : 0 < k) {d : List UInt8} (hd : k ∣ 8 * d.length)
    (e : List UInt8) : symbols k (d ++ e) = symbols k d ++ symbols k e := by
  have hmod : 8 * (d ++ e).length % k = 8 * e.length % k := by
    obtain ⟨q, hq⟩ := hd
    rw [List.length_append, Nat.mul_add, hq, Nat.mul_add_mod]
  have hzero : (k - 8 * d.length % k) % k = 0 := by
    rw [Nat.mod_eq_zero_of_dvd hd, Nat.sub_zero, Nat.mod_self]
  rw [symbols, hmod, ofBytes_append, List.append_assoc,
    groups_append_of_dvd hk (by rwa [length_ofBytes]), List.map_append,
    symbols, hzero, List.replicate_zero, List.append_nil, symbols]

/-- The groups of a string of whole groups, laid end to end, are the string. -/
lemma flatMap_groups {k : ℕ} (hk : 0 < k) (l : List Bool) (hl : k ∣ l.length) :
    ((groups k l).map toNat).flatMap (ofNat k) = l := by
  obtain ⟨q, hq⟩ := hl
  induction q generalizing l with
  | zero =>
    obtain rfl : l = [] := List.eq_nil_of_length_eq_zero (by simpa using hq)
    rw [groups_of_lt (by simpa using hk)]
    rfl
  | succ q ih =>
    rw [Nat.mul_add, Nat.mul_one] at hq
    have htake : (l.take k).length = k := by rw [List.length_take]; omega
    have hback : ofNat k (toNat (l.take k)) = l.take k := by
      have h := ofNat_toNat (l.take k)
      rwa [htake] at h
    conv_lhs => rw [← List.take_append_drop k l]
    rw [groups_append hk htake, List.map_cons, List.flatMap_cons,
      ih (l.drop k) (by rw [List.length_drop]; omega), hback, List.take_append_drop]

/-- **The bytes come back from their symbols.** -/
theorem octets_symbols {k : ℕ} (hk : 0 < k) (hk8 : k ≤ 8) (data : List UInt8) :
    octets k (symbols k data) = data := by
  have hdvd := dvd_length_fill hk (8 * data.length)
  rw [octets, symbols, flatMap_groups hk]
  · refine toBytes_ofBytes_append data ?_
    rw [List.length_replicate]
    exact (Nat.mod_lt _ hk).trans_le hk8
  · rwa [List.length_append, length_ofBytes, List.length_replicate]

/-- The number of symbols. -/
lemma length_symbols {k : ℕ} (data : List UInt8) :
    (symbols k data).length = (8 * data.length + (k - 8 * data.length % k) % k) / k := by
  simp [symbols]

/-- The bits of a sequence of symbols. -/
lemma length_flatMap_ofNat (k : ℕ) (values : List ℕ) :
    (values.flatMap (ofNat k)).length = k * values.length := by
  induction values with
  | nil => rfl
  | cons v values ih =>
    rw [List.flatMap_cons, List.length_append, length_ofNat, ih, List.length_cons]
    ring

/-- The number of bytes. -/
lemma length_octets (k : ℕ) (values : List ℕ) :
    (octets k values).length = k * values.length / 8 := by
  rw [octets, toBytes, List.length_map, length_groups, length_flatMap_ofNat]

/-- Symbols are the groups of their bits. -/
lemma map_toNat_groups_flatMap {k : ℕ} (hk : 0 < k) {values : List ℕ}
    (hvalues : ∀ v ∈ values, v < 2 ^ k) :
    (groups k (values.flatMap (ofNat k))).map toNat = values := by
  have hcut := groups_flatMap hk (ofNat k) (length_ofNat k) values []
  rw [List.append_nil, groups_of_lt (l := []) (by simpa using hk), List.append_nil] at hcut
  rw [hcut, List.map_map]
  conv_rhs => rw [← List.map_id values]
  refine List.map_congr_left fun v hv => ?_
  rw [Function.comp_apply, toNat_ofNat, Nat.mod_eq_of_lt (hvalues v hv), id_eq]

/-- The bits of the bytes of a bit string: those that make up whole bytes. -/
lemma ofBytes_toBytes (l : List Bool) : ofBytes (toBytes l) = l.take (8 * (l.length / 8)) := by
  have hle : 8 * (l.length / 8) ≤ l.length := Nat.mul_div_le _ _
  have hlen : (l.take (8 * (l.length / 8))).length = 8 * (l.length / 8) := by
    rw [List.length_take, Nat.min_eq_left hle]
  have hrest : (l.drop (8 * (l.length / 8))).length < 8 := by
    rw [List.length_drop]
    omega
  have hdvd : 8 ∣ (l.take (8 * (l.length / 8))).length := ⟨_, hlen⟩
  have hbytes : toBytes l = toBytes (l.take (8 * (l.length / 8))) := by
    conv_lhs => rw [← List.take_append_drop (8 * (l.length / 8)) l]
    rw [toBytes, toBytes, groups_append_of_dvd (by norm_num) hdvd, groups_of_lt hrest,
      List.append_nil]
  have hback := flatMap_groups (k := 8) (by norm_num) _ hdvd
  rw [hbytes]
  conv_rhs => rw [← hback]
  rw [toBytes, ofBytes, List.flatMap_map, List.flatMap_map]
  refine List.flatMap_congr fun g hg => ?_
  have hlt := toNat_lt g
  rw [length_of_mem_groups hg] at hlt
  rw [UInt8.toNat_ofNat', Nat.mod_eq_of_lt hlt]

/-- The bits at the end of some symbols are zero exactly when the last symbol is a multiple of
their power of two. -/
lemma drop_eq_replicate_iff {k r : ℕ} (hr : r < k) {values : List ℕ} (hne : values ≠ []) :
    (values.flatMap (ofNat k)).drop (k * values.length - r) = List.replicate r false ↔
      ∀ v ∈ values.getLast?, v % 2 ^ r = 0 := by
  obtain ⟨before, v, rfl⟩ := (List.eq_nil_or_concat values).resolve_left hne
  rw [List.concat_eq_append, List.flatMap_append, List.flatMap_singleton, List.getLast?_concat,
    List.length_append, List.length_singleton, Nat.mul_add, Nat.mul_one]
  have hdrop : (before.flatMap (ofNat k) ++ ofNat k v).drop (k * before.length + k - r) =
      (ofNat k v).drop (k - r) := by
    rw [List.drop_append, length_flatMap_ofNat, List.drop_eq_nil_of_le
      (by rw [length_flatMap_ofNat]; omega), List.nil_append]
    congr 1
    omega
  have hnum : toNat ((ofNat k v).drop (k - r)) = v % 2 ^ r := by
    rw [toNat_drop, length_ofNat, toNat_ofNat, show k - (k - r) = r by omega,
      Nat.mod_mod_of_dvd _ (Nat.pow_dvd_pow 2 hr.le)]
  have hzero : toNat (List.replicate r false) = 0 := by
    simpa using toNat_append_replicate_false [] r
  rw [hdrop]
  constructor
  · intro h w hw
    obtain rfl : v = w := by simpa using hw
    rw [← hnum, h, hzero]
  · intro h
    refine eq_of_toNat_eq ?_ ?_
    · rw [List.length_drop, length_ofNat, List.length_replicate]
      omega
    · rw [hnum, hzero]
      exact h v rfl

/-- **Which symbols come back from their bytes**: those whose bits after the last whole byte are
fewer than a symbol's, and zero.

**Proof sketch.** Laid end to end, the symbols of the bytes are the bits of the whole bytes, filled
up with zero bits to a whole number of symbols. These are the bits of the given symbols exactly
when the bits that follow the bytes are the filling. -/
theorem symbols_octets_iff {k : ℕ} (hk : 0 < k) {values : List ℕ}
    (hvalues : ∀ v ∈ values, v < 2 ^ k) :
    symbols k (octets k values) = values ↔
      k * values.length % 8 < k ∧ ∀ v ∈ values.getLast?, v % 2 ^ (k * values.length % 8) = 0 := by
  have hdivmod := Nat.div_add_mod (k * values.length) 8
  have hlen := length_flatMap_ofNat k values
  rw [symbols, length_octets, octets, ofBytes_toBytes, hlen]
  generalize hn : 8 * (k * values.length / 8) = n at hdivmod ⊢
  generalize hr : k * values.length % 8 = r at hdivmod ⊢
  have hfill : (k - n % k) % k < k := Nat.mod_lt _ hk
  have hdvd : k ∣ n + (k - n % k) % k := dvd_length_fill hk n
  generalize (k - n % k) % k = f at hfill hdvd ⊢
  have htake : ((values.flatMap (ofNat k)).take n).length = n := by
    rw [List.length_take, hlen]
    omega
  have hsub : k * values.length - r = n := by omega
  constructor
  · intro h
    have hbits : (values.flatMap (ofNat k)).take n ++ List.replicate f false =
        values.flatMap (ofNat k) := by
      have hback := flatMap_groups hk ((values.flatMap (ofNat k)).take n ++ List.replicate f false)
        (by rwa [List.length_append, htake, List.length_replicate])
      rw [← hback, h]
    have hfr : f = r := by
      have hlength := congrArg List.length hbits
      rw [List.length_append, htake, List.length_replicate, hlen] at hlength
      omega
    subst hfr
    refine ⟨hfill, ?_⟩
    by_cases hne : values = []
    · intro v hv
      rw [hne] at hv
      cases hv
    · rw [← drop_eq_replicate_iff hfill hne, hsub]
      conv_lhs => rw [← hbits]
      exact List.drop_left' htake
  · rintro ⟨hrk, hzero⟩
    have hfr : f = r := by
      have hmod : n + f ≡ n + r [MOD k] := by
        rw [hdivmod]
        exact ((Nat.modEq_zero_iff_dvd.mpr hdvd).trans
          (Nat.modEq_zero_iff_dvd.mpr (Dvd.intro _ rfl)).symm)
      exact (Nat.ModEq.add_left_cancel' n hmod).eq_of_lt_of_lt hfill hrk
    have hend : (values.flatMap (ofNat k)).drop n = List.replicate r false := by
      by_cases hne : values = []
      · have hr0 : r = 0 := by
          rw [← hr, hne]
          rfl
        rw [hne, hr0]
        simp
      · rwa [← drop_eq_replicate_iff hrk hne, hsub] at hzero
    rw [hfr, ← hend, List.take_append_drop]
    exact map_toNat_groups_flatMap hk hvalues

/-- The symbols of data whose bits are those of whole symbols and a rest that is shorter: the rest,
unless it is empty, makes one more symbol with zero bits. -/
lemma symbols_of_split {k : ℕ} {data : List UInt8} {values : List ℕ} {rest : List Bool}
    (hsplit : ofBytes data = values.flatMap (ofNat k) ++ rest) (hvalues : ∀ v ∈ values, v < 2 ^ k)
    (hrest : rest.length < k) :
    symbols k data = values ++ if rest.length = 0 then []
      else [toNat (rest ++ List.replicate (k - rest.length) false)] := by
  have hk : 0 < k := by omega
  have hlen : 8 * data.length = k * values.length + rest.length := by
    rw [← length_ofBytes, hsplit, List.length_append, length_flatMap_ofNat]
  have hmod : 8 * data.length % k = rest.length := by
    rw [hlen, Nat.mul_add_mod, Nat.mod_eq_of_lt hrest]
  have hdvd : k ∣ (values.flatMap (ofNat k)).length := ⟨_, length_flatMap_ofNat k values⟩
  rw [symbols, hmod, hsplit, List.append_assoc, groups_append_of_dvd hk hdvd, List.map_append,
    map_toNat_groups_flatMap hk hvalues]
  congr 1
  by_cases h0 : rest.length = 0
  · obtain rfl : rest = [] := List.eq_nil_of_length_eq_zero h0
    simp [groups_of_lt, hk]
  · rw [if_neg h0, Nat.mod_eq_of_lt (a := k - rest.length) (by omega),
      ← List.append_nil (rest ++ List.replicate (k - rest.length) false), groups_append hk,
      groups_of_lt (by simpa using hk), List.map_singleton, List.append_nil]
    rw [List.length_append, List.length_replicate]
    omega

end BaseEncoding
