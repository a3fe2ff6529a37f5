import RaCommon.Runtime.Text

set_option relaxedAutoImplicit false
set_option autoImplicit false

/-!
# Random values (`util/random_util.hpp`)

A call that draws random values takes them as an argument: every place of the call that draws has
its own, arbitrary value. The entropy source of the operating system is taken not to fail; where a
failure is modelled, the value drawn is optional.

## Main definitions

* `RaCommon.Draw`, `RaCommon.Draws` — the values drawn at one place and by one call.
* `RaCommon.randomUuidLike`, `RaCommon.randomAlphanumeric` — the texts of ids.
* `RaCommon.nextIntIn` — an `int` between two bounds.

## Main results

* `RaCommon.nextIntIn_iff` — for which bounds the value is between them.
-/

namespace RaCommon

/-- What one place draws: the result of `RandomBytesOf(16)`, and that of `NextLong`. -/
structure Draw where
  bytes : {b : Bytes // b.length = 16}
  nextLong : Int64

/-- What a call draws, for each of its places: those of a nested call are numbered. -/
abbrev Draws := List ℕ → Draw

namespace Draws

/-- What the call draws itself. -/
def here (draws : Draws) : Draw := draws []

/-- What its nested call `i` draws. -/
def nested (draws : Draws) (i : ℕ) : Draws := fun place => draws (i :: place)

end Draws

/-- `RandomUuidLike`, with the bytes it draws. -/
def randomUuidLike (d : Draw) : Str :=
  d.bytes.val.zipIdx.flatMap fun (p : UInt8 × ℕ) =>
    (if p.2 = 4 ∨ p.2 = 6 ∨ p.2 = 8 ∨ p.2 = 10 then str "-" else []) ++
      [hexDigit (p.1 >>> 4), hexDigit (p.1 &&& 0xf)]

/-- `RandomAlphanumeric`, with the bytes it draws, one for each character. -/
def randomAlphanumeric (bytes : Bytes) : Str :=
  let kAlphabet := str "ABCDEFGHIJKLMNOPQRSTUVWXYZabcdefghijklmnopqrstuvwxyz0123456789"
  bytes.map fun b => kAlphabet.getD (b.toNat % kAlphabet.length) 0

/-! ## Numbers between two bounds -/

/-- `NextIntIn`, with the word it draws. The difference and the sum are those of `int`; a remainder
is defined for a divisor other than zero only. -/
def nextIntIn (raw : UInt32) (lower upper : Int32) : Outcome Int32 := do
  let span := UInt32.ofInt (← checkInt (upper.toInt - lower.toInt))
  if span = 0 then .error .undefinedBehavior
  else .ok (Int32.ofInt (← checkInt (lower.toInt + (raw % span).toInt32.toInt)))

/-- What is to hold of a draw: it returns, and its value is not below the lower bound and below the
upper one. A draw that returns has met no zero divisor and no overflow. -/
def DrawsBetween (raw : UInt32) (lower upper : Int32) : Prop :=
  ∃ v, nextIntIn raw lower upper = .ok v ∧ lower ≤ v ∧ v < upper

/-- A 32-bit word below `2 ^ 31` as an `int`. -/
lemma toInt_toInt32 {n : UInt32} (h : n.toNat < 2 ^ 31) : n.toInt32.toInt = n.toNat := by
  rw [Int32.toInt, UInt32.toBitVec_toInt32, BitVec.toInt_eq_toNat_of_lt]
  · rfl
  · show 2 * n.toNat < 2 ^ 32
    omega

/-- **What is drawn from a span that `int` holds**: the remainder is below the span, and the sum
below the upper bound. -/
theorem nextIntIn_eq (raw : UInt32) {lower upper : Int32} (hpos : lower.toInt < upper.toInt)
    (hspan : upper.toInt - lower.toInt < 2 ^ 31) : ∃ v, nextIntIn raw lower upper = .ok v ∧
      v.toInt = lower.toInt + raw.toNat % (upper.toInt - lower.toInt) := by
  have hlower := lower.le_toInt
  have hupper := upper.toInt_lt
  obtain ⟨n, hn⟩ : ∃ n : ℕ, upper.toInt - lower.toInt = n :=
    Int.eq_ofNat_of_zero_le (by omega)
  have hdivisor : (UInt32.ofInt n).toNat = n := by
    rw [UInt32.ofInt, UInt32.toNat_ofNat']
    omega
  have hne : UInt32.ofInt n ≠ 0 := by
    intro hzero
    rw [hzero, UInt32.toNat_zero] at hdivisor
    omega
  have hmod : raw.toNat % n < n := Nat.mod_lt _ (by omega)
  have hremainder : (raw % UInt32.ofInt n).toNat = raw.toNat % n := by
    rw [UInt32.toNat_mod, hdivisor]
  have hoffset : (raw % UInt32.ofInt n).toInt32.toInt = (raw.toNat % n : ℕ) := by
    rw [toInt_toInt32 (by omega), hremainder]
  have hrange : -2 ^ 31 ≤ lower.toInt + (raw.toNat % n : ℕ) ∧
      lower.toInt + (raw.toNat % n : ℕ) < 2 ^ 31 := by omega
  refine ⟨Int32.ofInt (lower.toInt + (raw.toNat % n : ℕ)), ?_, ?_⟩
  · rw [nextIntIn, hn, checkInt_eq_ok (by omega), Outcome.ok_bind]
    simp only [if_neg hne, hoffset, checkInt_eq_ok hrange, Outcome.ok_bind]
  · rw [Int32.toInt_ofInt_of_le hrange.1 hrange.2, hn]
    rfl

/-- A span that `int` does not hold overflows, whatever is drawn. -/
lemma nextIntIn_overflow (raw : UInt32) {lower upper : Int32}
    (hspan : 2 ^ 31 ≤ upper.toInt - lower.toInt) :
    nextIntIn raw lower upper = .error .undefinedBehavior := by
  rw [nextIntIn, checkInt, if_neg (by omega), Outcome.error_bind]

/-- **For which bounds the value is between them**: those whose difference `int` holds, for every
word that is drawn.

**Proof sketch.** The difference is the first thing that is computed, and overflows when it is too
large (`nextIntIn_overflow`). Otherwise it is kept by the conversion to an unsigned number and is
not zero; the remainder is below it, so that it is kept by the conversion back and the sum stays
below the upper bound (`nextIntIn_eq`). -/
theorem nextIntIn_iff (raw : UInt32) {lower upper : Int32} (h : lower < upper) :
    DrawsBetween raw lower upper ↔ upper.toInt - lower.toInt < 2 ^ 31 := by
  have hpos := Int32.lt_iff_toInt_lt.mp h
  constructor
  · rintro ⟨v, hv, -⟩
    by_contra hspan
    rw [nextIntIn_overflow raw (not_lt.mp hspan)] at hv
    cases hv
  · intro hspan
    obtain ⟨v, hv, hvalue⟩ := nextIntIn_eq raw hpos hspan
    have hlow := Int.emod_nonneg (raw.toNat : ℤ) (show upper.toInt - lower.toInt ≠ 0 by omega)
    have hhigh := Int.emod_lt_of_pos (raw.toNat : ℤ)
      (show 0 < upper.toInt - lower.toInt by omega)
    refine ⟨v, hv, Int32.le_iff_toInt_le.mpr ?_, Int32.lt_iff_toInt_lt.mpr ?_⟩
    · omega
    · omega

/-- `nextIntIn_iff` for a die. -/
theorem nextIntIn_die : DrawsBetween 0xffffffff 1 7 :=
  (nextIntIn_iff 0xffffffff (by decide)).mpr (by decide)

/-- The difference between the largest and the smallest `int` is no `int`. -/
theorem nextIntIn_full_range :
    ¬ ∀ (raw : UInt32) (lower upper : Int32), lower < upper → DrawsBetween raw lower upper := by
  intro hall
  obtain ⟨v, hv, -⟩ := hall 0 Int32.minValue Int32.maxValue (by decide)
  rw [nextIntIn_overflow 0 (by decide)] at hv
  cases hv

end RaCommon
