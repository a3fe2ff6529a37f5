import RaCommon.Runtime.Text

set_option relaxedAutoImplicit false
set_option autoImplicit false

/-!
# Unique ids (`util/unique_id.hpp`)

## Main definitions

* `RaCommon.UniqueId` — an identifier of 32 bytes, with its constructor `new`.
* `RaCommon.vectorOf` — a vector made from two iterators into another one.
* `RaCommon.UniqueId.fromSlice` — the id at an offset in a vector.
* `RaCommon.UniqueId.ReadsSlice` — what reading the id at an offset should do.

## Main results

* `RaCommon.UniqueId.fromSlice_wraps` — what happens where the end of the id is beyond the range
  of `size_t`.
* `RaCommon.UniqueId.readsSlice_iff` — for which offsets the id is read as it should be.
-/

namespace RaCommon

/-- `UniqueId`. -/
structure UniqueId where
  bytes : Bytes
  length_eq : bytes.length = 32
  deriving DecidableEq

/-- `std::vector<uint8_t>(src.begin() + first, src.begin() + last)`. An iterator outside the vector,
or a range that ends before it begins, is undefined. -/
def vectorOf (src : Bytes) (first last : Int64) : Outcome Bytes :=
  if 0 ≤ first.toInt ∧ first.toInt ≤ last.toInt ∧ last.toInt ≤ src.length then
    .ok ((src.drop first.toInt.toNat).take (last.toInt - first.toInt).toNat)
  else .error .undefinedBehavior

namespace UniqueId

/-- `kLength`. -/
def kLength : UInt64 := 32

/-- The constructor of `UniqueId`. -/
def new (bytes : Bytes) : Outcome UniqueId :=
  if h : bytes.length = 32 then .ok ⟨bytes, h⟩
  else
    .error (.invalid (str "UniqueId must be " ++ toText kLength.toNat ++ str " bytes, got " ++
      toText bytes.length))

/-- `FromSlice`. The sum in the bounds test is one of `size_t`, and wraps around. -/
def fromSlice (src : Bytes) (offset : UInt64) : Outcome UniqueId :=
  if UInt64.ofNat src.length < offset + kLength then
    .error (.invalid (str "not enough bytes for UniqueId"))
  else do
    new (← vectorOf src offset.toInt64 (offset + kLength).toInt64)

/-- What reading the id at an offset should do: throw an `Invalid` error where fewer than 32 bytes
lie at or after the offset, and otherwise return the id of the 32 bytes there. -/
def ReadsSlice (src : Bytes) (offset : UInt64) : Prop :=
  (src.length < offset.toNat + 32 → ∃ message, fromSlice src offset = .error (.invalid message)) ∧
  (offset.toNat + 32 ≤ src.length → ∃ id, fromSlice src offset = .ok id ∧
    id.bytes = (src.drop offset.toNat).take 32)

/-! ## The bounds test -/

/-- The number of bytes of a vector, which is below `2 ^ 63`, as a `size_t`. -/
lemma toNat_size {src : Bytes} (hsize : src.length < 2 ^ 63) :
    (UInt64.ofNat src.length).toNat = src.length := by
  rw [UInt64.toNat_ofNat']
  omega

/-- Where the sum does not wrap around, the bounds test is the one that is meant. -/
lemma lt_end_iff {src : Bytes} {offset : UInt64} (hsize : src.length < 2 ^ 63)
    (hend : offset.toNat + 32 < 2 ^ 64) :
    UInt64.ofNat src.length < offset + kLength ↔ src.length < offset.toNat + 32 := by
  have hlength : kLength.toNat = 32 := rfl
  rw [UInt64.lt_iff_toNat_lt, toNat_size hsize, UInt64.toNat_add, hlength, Nat.mod_eq_of_lt hend]

/-- Where it does, the test compares with what is left of the sum. -/
lemma lt_end_iff_of_wraps {src : Bytes} {offset : UInt64} (hsize : src.length < 2 ^ 63)
    (hend : 2 ^ 64 ≤ offset.toNat + 32) :
    UInt64.ofNat src.length < offset + kLength ↔ src.length < offset.toNat + 32 - 2 ^ 64 := by
  have hlength : kLength.toNat = 32 := rfl
  have hoffset := offset.toNat_lt
  rw [UInt64.lt_iff_toNat_lt, toNat_size hsize, UInt64.toNat_add, hlength]
  omega

/-- `static_cast<long>`: the upper half of the range of `size_t` becomes negative. -/
lemma toInt_toInt64 (n : UInt64) :
    n.toInt64.toInt = if n.toNat < 2 ^ 63 then (n.toNat : ℤ) else n.toNat - 2 ^ 64 := by
  have hsigned : n.toInt64.toInt = n.toBitVec.toInt := rfl
  rw [hsigned, BitVec.toInt_eq_toNat_cond, UInt64.toNat_toBitVec]
  split_ifs <;> omega

/-! ## Reading an id -/

/-- A slice inside the vector. -/
lemma fromSlice_of_le {src : Bytes} {offset : UInt64} (hsize : src.length < 2 ^ 63)
    (hle : offset.toNat + 32 ≤ src.length) : ∃ id, fromSlice src offset = .ok id ∧
      id.bytes = (src.drop offset.toNat).take 32 := by
  have hend : (offset + kLength).toNat = offset.toNat + 32 := by
    have hlength : kLength.toNat = 32 := rfl
    rw [UInt64.toNat_add, hlength, Nat.mod_eq_of_lt (by omega)]
  have hguard : ¬ UInt64.ofNat src.length < offset + kLength := by
    rw [lt_end_iff hsize (by omega)]
    omega
  have hfirst : offset.toInt64.toInt = offset.toNat := by
    rw [toInt_toInt64, if_pos (by omega)]
  have hlast : (offset + kLength).toInt64.toInt = offset.toNat + 32 := by
    rw [toInt_toInt64, hend, if_pos (by omega), Nat.cast_add]
    rfl
  have hcount : ((offset.toNat : ℤ) + 32 - offset.toNat).toNat = 32 := by omega
  have hvector : vectorOf src offset.toInt64 (offset + kLength).toInt64 =
      .ok ((src.drop offset.toNat).take 32) := by
    rw [vectorOf, hfirst, hlast, if_pos ⟨by omega, by omega, by omega⟩, Int.toNat_natCast, hcount]
  have hbytes : ((src.drop offset.toNat).take 32).length = 32 := by
    rw [List.length_take, List.length_drop]
    omega
  refine ⟨⟨_, hbytes⟩, ?_, rfl⟩
  rw [fromSlice, if_neg hguard, hvector, Outcome.ok_bind, new, dif_pos hbytes]

/-- **Where the sum wraps around**, the call either throws, or it reads in front of the vector.

**Proof sketch.** What is left of the sum is below 32. If the vector has no more bytes than that,
the bounds test throws. Otherwise the offset, which is close to `2 ^ 64`, is cast to a negative
number, and the first iterator is in front of the vector. -/
theorem fromSlice_wraps {src : Bytes} {offset : UInt64} (hsize : src.length < 2 ^ 63)
    (hend : 2 ^ 64 ≤ offset.toNat + 32) : fromSlice src offset =
      if src.length < offset.toNat + 32 - 2 ^ 64 then
        .error (.invalid (str "not enough bytes for UniqueId"))
      else .error .undefinedBehavior := by
  have hoffset := offset.toNat_lt
  have hfirst : ¬ 0 ≤ offset.toInt64.toInt := by
    rw [toInt_toInt64, if_neg (by omega)]
    omega
  have hvector : vectorOf src offset.toInt64 (offset + kLength).toInt64 =
      .error .undefinedBehavior := by
    rw [vectorOf, if_neg fun h => hfirst h.1]
  simp only [fromSlice, lt_end_iff_of_wraps hsize hend, hvector, Outcome.error_bind]

/-- **For which offsets the id is read as it should be**: those for which the sum in the bounds test
does not wrap around, and those for which the vector is shorter than what is left of the sum.

**Proof sketch.** Without a wrap the bounds test is the one that is meant, and a slice that passes
it is inside the vector. With one there are fewer than 32 bytes at or after the offset, so that the
call has to throw, which it does only if the rest of the sum is above the vector's size. -/
theorem readsSlice_iff (src : Bytes) (offset : UInt64) (hsize : src.length < 2 ^ 63) :
    ReadsSlice src offset ↔
      offset.toNat + 32 < 2 ^ 64 ∨ src.length < offset.toNat + 32 - 2 ^ 64 := by
  by_cases hend : offset.toNat + 32 < 2 ^ 64
  · refine iff_of_true ⟨fun hlt => ⟨str "not enough bytes for UniqueId", ?_⟩,
      fromSlice_of_le hsize⟩ (.inl hend)
    rw [fromSlice, if_pos ((lt_end_iff hsize hend).mpr hlt)]
  · have hwraps : 2 ^ 64 ≤ offset.toNat + 32 := by omega
    rw [ReadsSlice, fromSlice_wraps hsize hwraps, or_iff_right hend]
    have hoffset := offset.toNat_lt
    constructor
    · intro hreads
      by_contra hshort
      obtain ⟨message, hmessage⟩ := hreads.1 (by omega)
      rw [if_neg hshort] at hmessage
      cases hmessage
    · intro hshort
      rw [if_pos hshort]
      exact ⟨fun _ => ⟨_, rfl⟩, fun hle => absurd hle (by omega)⟩

/-- `readsSlice_iff` for the second half of 64 bytes. -/
theorem readsSlice_iff_second_half : ReadsSlice (List.replicate 64 0) 32 :=
  (readsSlice_iff (List.replicate 64 0) 32 (by decide)).mpr (.inl (by decide))

/-- At the largest offset, the id is read from in front of a vector of 32 bytes. -/
theorem fromSlice_largest_offset :
    ¬ ∀ (src : Bytes) (offset : UInt64), src.length < 2 ^ 63 → ReadsSlice src offset := by
  intro hall
  obtain ⟨hthrows, -⟩ := hall (List.replicate 32 0) 0xffffffffffffffff (by decide)
  obtain ⟨message, hmessage⟩ := hthrows (by decide)
  have hundefined : fromSlice (List.replicate 32 0) 0xffffffffffffffff =
      .error .undefinedBehavior := by
    decide
  rw [hundefined] at hmessage
  cases hmessage

end UniqueId

end RaCommon
