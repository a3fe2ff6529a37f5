import RaCommon.Library.Numeral
import RaCommon.Runtime.Outcome
import Mathlib.Data.Int.Bitwise
import Mathlib.Tactic.Ring
import Mathlib.Tactic.NormNum

set_option relaxedAutoImplicit false
set_option autoImplicit false

/-!
# Base58 (`encoding.hpp`)

`Base58Encode` and `Base58Decode` are base conversions done in place: for every input symbol
the digit vector, least significant digit first, is multiplied by the input's base and the
symbol is added, with an `int` carry; the digits of the carry that is left are appended. The two
directions run the same pair of loops with different arithmetic (`%` and `/` by 58 against
`& 0xff` and `>> 8`), which `DigitOps` abstracts.

Every `int` the loops compute goes through `checkInt`, and every conversion to a stored byte
through `toUInt8`, so a run that returns has kept all of them in range.

## Main definitions

* `RaCommon.Base58.base58Encode`, `base58Decode` — the two functions.
* `RaCommon.Base58.numeral` — one `'1'` for each leading zero byte, then the shortest base-58
  numeral of the big-endian integer.

## Main results

* `RaCommon.Base58.absorb_eq` — one round of the loops, by `Numeral.mulAdd_digits`.
* `RaCommon.Base58.base58Encode_eq`, `RaCommon.Base58.base58Decode_map` — both functions in closed
  form.
* `RaCommon.Base58.inverse_bijections` — the two functions are mutually inverse.
-/

namespace RaCommon.Base58

/-! ## The conversion loops -/

/-- The `kAlphabet` of both functions. -/
def kAlphabet : Str := str "123456789ABCDEFGHJKLMNPQRSTUVWXYZabcdefghijkmnopqrstuvwxyz"

/-- How a direction splits an `int` into the digit it stores and the carry it keeps. -/
structure DigitOps where
  /-- The stored digit. -/
  digit : ℤ → ℤ
  /-- The carry. -/
  carry : ℤ → ℤ
  /-- The base of the digits. -/
  base : ℕ
  one_lt_base : 1 < base
  base_le : base ≤ 256
  digit_natCast : ∀ n : ℕ, digit n = (n % base : ℕ)
  carry_natCast : ∀ n : ℕ, carry n = (n / base : ℕ)

/-- `x % 58` and `x / 58`, as `Base58Encode` writes them. -/
def encodeOps : DigitOps where
  digit x := x.tmod 58
  carry x := x.tdiv 58
  base := 58
  one_lt_base := by norm_num
  base_le := by norm_num
  digit_natCast n := rfl
  carry_natCast n := rfl

/-- `x & 0xff` and `x >> 8`, as `Base58Decode` writes them. -/
def decodeOps : DigitOps where
  digit x := x.land 0xff
  carry x := x >>> 8
  base := 256
  one_lt_base := by norm_num
  base_le := by norm_num
  digit_natCast n := by
    change ((n &&& 255 : ℕ) : ℤ) = _
    rw [show (255 : ℕ) = 2 ^ 8 - 1 by norm_num, Nat.and_two_pow_sub_one_eq_mod]
  carry_natCast n := by
    change ((n >>> 8 : ℕ) : ℤ) = _
    rw [Nat.shiftRight_eq_div_pow]

/-- The loop `for (auto& d : digits)`: `x = d * m + carry`, then `d` and `carry` from `x`. -/
def carryLoop (ops : DigitOps) (m : ℤ) : ℤ → List UInt8 → Outcome (List UInt8 × ℤ)
  | carry, [] => .ok ([], carry)
  | carry, d :: ds => do
    let p ← checkInt (d.toNat * m)
    let x ← checkInt (p + carry)
    let d' ← toUInt8 (ops.digit x)
    let r ← carryLoop ops m (ops.carry x) ds
    .ok (d' :: r.1, r.2)

/-- The carry shrinks while it is positive. -/
lemma DigitOps.carry_lt (ops : DigitOps) {c : ℤ} (hc : 0 < c) :
    (ops.carry c).toNat < c.toNat := by
  obtain ⟨n, rfl⟩ := Int.eq_ofNat_of_zero_le hc.le
  rw [ops.carry_natCast, Int.toNat_natCast, Int.toNat_natCast]
  exact Nat.div_lt_self (by omega) ops.one_lt_base

/-- The loop `while (carry > 0)`, which pushes the digits of the carry. -/
def pushLoop (ops : DigitOps) (carry : ℤ) : Outcome (List UInt8) :=
  if _h : 0 < carry then do
    let d ← toUInt8 (ops.digit carry)
    let ds ← pushLoop ops (ops.carry carry)
    .ok (d :: ds)
  else .ok []
termination_by carry.toNat
decreasing_by exact ops.carry_lt _h

/-- One round of the outer loop: absorb one input symbol into the digit vector. -/
def absorb (ops : DigitOps) (m : ℤ) (digits : List UInt8) (symbol : ℤ) :
    Outcome (List UInt8) := do
  let r ← carryLoop ops m symbol digits
  let more ← pushLoop ops r.2
  .ok (r.1 ++ more)

/-- `Base58Encode`. -/
def base58Encode (data : Bytes) : Outcome Str := do
  let digits ← data.foldlM (fun digits byte => absorb encodeOps 256 digits byte.toNat) []
  let out ← digits.reverse.mapM fun d => readAt kAlphabet d.toNat
  let pad := (data.takeWhile (· = 0)).length
  let one ← readAt kAlphabet 0
  .ok (List.replicate pad one ++ out)

/-- One round of `Base58Decode`'s outer loop. `strchr` also finds the terminating `'\0'` of the
alphabet, which the source excludes by its own test. -/
def decodeStep (bytes : List UInt8) (ch : UInt8) : Outcome (List UInt8) :=
  match kAlphabet.idxOf? ch with
  | none => .error (.decode (str "invalid base58 character: " ++ [ch]))
  | some pos => absorb decodeOps 58 bytes pos

/-- `Base58Decode`. -/
def base58Decode (text : Str) : Outcome Bytes := do
  let bytes ← text.foldlM decodeStep []
  let one ← readAt kAlphabet 0
  let pad := (text.takeWhile (· = one)).length
  .ok (List.replicate pad 0 ++ bytes.reverse)

/-! ## One round -/

/-- The carry loop is `Numeral.mulAdd` on the digits' values; no `int` leaves its range.

**Proof sketch.** Induction on the digits. With a digit below the base `b ≤ 256` and a carry
below `m ≤ 256`, `x = d · m + carry` is below `b · m`, so `x` fits `int`, `x mod b` fits a byte
and the next carry `x / b` is again below `m`. -/
theorem carryLoop_eq (ops : DigitOps) {m c : ℕ} (hm : m ≤ 256) (hc : c < m) (ds : List UInt8)
    (hds : ∀ d ∈ ds.map UInt8.toNat, d < ops.base) :
    carryLoop ops m c ds =
      .ok ((Numeral.mulAdd ops.base m c (ds.map UInt8.toNat)).1.map UInt8.ofNat,
        (Numeral.mulAdd ops.base m c (ds.map UInt8.toNat)).2) := by
  induction ds generalizing c with
  | nil => rfl
  | cons d ds ih =>
    have hd : d.toNat < ops.base := hds d.toNat (by simp)
    have hb := ops.base_le
    have hx : d.toNat * m + c < ops.base * m := by
      calc d.toNat * m + c < d.toNat * m + m := by omega
        _ = (d.toNat + 1) * m := by ring
        _ ≤ ops.base * m := Nat.mul_le_mul_right m hd
    have hbm : ops.base * m ≤ 256 * 256 := Nat.mul_le_mul hb hm
    have hprod : checkInt ((d.toNat : ℤ) * m) = .ok ((d.toNat * m : ℕ) : ℤ) := by
      rw [← Int.natCast_mul]
      exact checkInt_eq_ok (by omega)
    have hsum : checkInt (((d.toNat * m : ℕ) : ℤ) + c) = .ok ((d.toNat * m + c : ℕ) : ℤ) := by
      rw [← Int.natCast_add]
      exact checkInt_eq_ok (by omega)
    have hdigit : (d.toNat * m + c) % ops.base < 256 :=
      (Nat.mod_lt _ (by have := ops.one_lt_base; omega)).trans_le hb
    have hcarry : (d.toNat * m + c) / ops.base < m := Nat.div_lt_of_lt_mul hx
    have hrest := ih hcarry fun e he => hds e (by simp [List.mem_map.mp he])
    rw [carryLoop, hprod, Outcome.ok_bind, hsum, Outcome.ok_bind, ops.digit_natCast,
      toUInt8_natCast hdigit, Outcome.ok_bind, ops.carry_natCast, hrest, Outcome.ok_bind]
    rfl

/-- The push loop appends the digits of the carry. -/
lemma pushLoop_eq (ops : DigitOps) (c : ℕ) :
    pushLoop ops c = .ok ((Nat.digits ops.base c).map UInt8.ofNat) := by
  induction c using Nat.strong_induction_on with
  | _ c ih =>
    have hb := ops.one_lt_base
    rw [pushLoop]
    rcases Nat.eq_zero_or_pos c with rfl | hc
    · simp
    · have hdigit : c % ops.base < 256 := (Nat.mod_lt _ (by omega)).trans_le ops.base_le
      rw [dif_pos (by exact_mod_cast hc), ops.digit_natCast, toUInt8_natCast hdigit,
        Outcome.ok_bind, ops.carry_natCast, ih _ (Nat.div_lt_self hc hb), Outcome.ok_bind,
        Nat.digits_def' hb hc]
      rfl

/-- Digits below the base are stored as they are. -/
lemma map_toNat_ofNat {b : ℕ} (hb : b ≤ 256) {ds : List ℕ} (h : ∀ d ∈ ds, d < b) :
    (ds.map UInt8.ofNat).map UInt8.toNat = ds := by
  rw [List.map_map]
  conv_rhs => rw [← List.map_id ds]
  refine List.map_congr_left fun d hd => ?_
  have := h d hd
  simp only [Function.comp_apply, UInt8.toNat_ofNat', id_eq]
  exact Nat.mod_eq_of_lt (by omega)

/-- **One round of the loops**: a digit vector that is the shortest numeral of `n` becomes the
shortest numeral of `m · n + c`. -/
theorem absorb_eq (ops : DigitOps) {m c : ℕ} (hm : m ≤ 256) (hc : c < m) (n : ℕ) :
    absorb ops m ((Nat.digits ops.base n).map UInt8.ofNat) c =
      .ok ((Nat.digits ops.base (m * n + c)).map UInt8.ofNat) := by
  have hb := ops.one_lt_base
  have hlt : ∀ d ∈ Nat.digits ops.base n, d < ops.base := fun d hd => Nat.digits_lt_base hb hd
  have hmap := map_toNat_ofNat ops.base_le hlt
  have hloop := carryLoop_eq ops hm hc ((Nat.digits ops.base n).map UInt8.ofNat)
    (by rwa [hmap])
  rw [hmap] at hloop
  rw [absorb, hloop, Outcome.ok_bind, pushLoop_eq, Outcome.ok_bind, ← List.map_append,
    Numeral.mulAdd_digits hb (by omega)]

/-- **The outer loop** over symbols below `m` reads the input as a base-`m` numeral. -/
theorem foldlM_absorb (ops : DigitOps) {m : ℕ} (hm : m ≤ 256) (symbols : List ℕ)
    (hs : ∀ s ∈ symbols, s < m) :
    symbols.foldlM (fun digits (s : ℕ) => absorb ops m digits s) [] =
      .ok ((Nat.digits ops.base (Numeral.value m symbols)).map UInt8.ofNat) := by
  induction symbols using List.reverseRecOn with
  | nil => simp [Numeral.value]
  | append_singleton symbols s ih =>
    have hprefix := ih fun x hx => hs x (by simp [hx])
    rw [List.foldlM_append, hprefix, Outcome.ok_bind, List.foldlM_cons,
      absorb_eq ops hm (hs s (by simp)), Numeral.value_concat]
    rfl

/-! ## Symbols -/

/-- The character of a base-58 digit. -/
def symbol (d : ℕ) : UInt8 := kAlphabet.getD d 0

/-- The digit of a character of the alphabet. -/
def digitOf (c : UInt8) : ℕ := kAlphabet.idxOf c

/-- `strchr` finds a digit at its own character. -/
lemma idxOf?_symbol {d : ℕ} (hd : d < 58) : kAlphabet.idxOf? (symbol d) = some d := by
  have h : ∀ i : Fin 58, kAlphabet.idxOf? (symbol i) = some i.val := by decide
  exact h ⟨d, hd⟩

/-- The character of a digit is in the alphabet. -/
lemma symbol_mem {d : ℕ} (hd : d < 58) : symbol d ∈ kAlphabet := by
  have h : ∀ i : Fin 58, symbol i ∈ kAlphabet := by decide
  exact h ⟨d, hd⟩

/-- Only the digit `0` is written `'1'`. -/
lemma symbol_eq_one {d : ℕ} (hd : d < 58) : symbol d = symbol 0 ↔ d = 0 := by
  have h : ∀ i : Fin 58, symbol i = symbol 0 ↔ i.val = 0 := by decide
  exact h ⟨d, hd⟩

/-- Every character of the alphabet is the character of its digit, which is below 58. -/
lemma symbol_digitOf {c : UInt8} (hc : c ∈ kAlphabet) :
    symbol (digitOf c) = c ∧ digitOf c < 58 := by
  have hlt : digitOf c < kAlphabet.length := List.idxOf_lt_length_iff.mpr hc
  refine ⟨?_, hlt⟩
  rw [symbol, List.getD_eq_getElem _ _ hlt]
  exact List.getElem_idxOf hlt

/-- Looking digits up in the alphabet. -/
lemma mapM_readAt {ds : List ℕ} (h : ∀ d ∈ ds, d < 58) :
    ds.mapM (readAt kAlphabet) = .ok (ds.map symbol) := by
  refine Outcome.mapM_eq_ok fun d hd => ?_
  have hlt : d < kAlphabet.length := h d hd
  rw [readAt_eq_ok hlt, symbol, List.getD_eq_getElem _ _ hlt]

/-! ## The functions in closed form -/

/-- The base58 text of a byte sequence: one `'1'` for each leading zero byte, followed by the
shortest base-58 numeral of the big-endian integer. -/
def numeral (data : Bytes) : Str :=
  List.replicate (data.takeWhile (· = 0)).length (symbol 0) ++
    (Nat.digits 58 (Numeral.value 256 (data.map UInt8.toNat))).reverse.map symbol

/-- The leading zeros of a byte sequence. -/
lemma leadingZeros_bytes (data : Bytes) :
    Numeral.leadingZeros (data.map UInt8.toNat) = (data.takeWhile (· = 0)).length := by
  rw [Numeral.leadingZeros, List.takeWhile_map, List.length_map]
  congr 2
  funext b
  simp [← UInt8.toNat_inj]

/-- The leading `'1'`s of a base58 text are the leading zeros of its digits. -/
lemma leadingOnes_map {ds : List ℕ} (h : ∀ d ∈ ds, d < 58) :
    ((ds.map symbol).takeWhile (· = symbol 0)).length = Numeral.leadingZeros ds := by
  rw [Numeral.leadingZeros, List.takeWhile_map, List.length_map]
  induction ds with
  | nil => rfl
  | cons d ds ih =>
    have hd := symbol_eq_one (h d (by simp))
    have hrest := ih fun e he => h e (by simp [he])
    by_cases h0 : d = 0
    · rw [List.takeWhile_cons_of_pos (by simpa using hd.mpr h0),
        List.takeWhile_cons_of_pos (by simpa using h0), List.length_cons, List.length_cons, hrest]
    · rw [List.takeWhile_cons_of_neg (by simpa using fun e => h0 (hd.mp e)),
        List.takeWhile_cons_of_neg (by simpa using h0)]

/-- The bytes are base-256 digits. -/
lemma bytes_lt (data : Bytes) : ∀ s ∈ data.map UInt8.toNat, s < 256 := by
  intro s hs
  obtain ⟨b, -, rfl⟩ := List.mem_map.mp hs
  exact b.toNat_lt

/-- `numeral` as the symbols of a digit text with the bytes' leading zeros and value. -/
lemma numeral_eq_map (data : Bytes) :
    numeral data = (Numeral.text 58 (Numeral.leadingZeros (data.map UInt8.toNat))
      (Numeral.value 256 (data.map UInt8.toNat))).map symbol := by
  rw [numeral, Numeral.text, List.map_append, List.map_replicate, leadingZeros_bytes]

/-- **`Base58Encode` in closed form**: it always returns, and returns `numeral`. -/
theorem base58Encode_eq (data : Bytes) : base58Encode data = .ok (numeral data) := by
  have hfold : data.foldlM (fun digits byte => absorb encodeOps 256 digits byte.toNat) [] =
      .ok ((Nat.digits 58 (Numeral.value 256 (data.map UInt8.toNat))).map UInt8.ofNat) := by
    have := foldlM_absorb encodeOps (m := 256) le_rfl (data.map UInt8.toNat)
      (bytes_lt data)
    rwa [List.foldlM_map] at this
  have hdigits : ∀ d ∈ (Nat.digits 58 (Numeral.value 256 (data.map UInt8.toNat))).reverse,
      d < 58 := fun d hd => Nat.digits_lt_base (by norm_num) (List.mem_reverse.mp hd)
  have hout : ((Nat.digits 58 (Numeral.value 256 (data.map UInt8.toNat))).map
      UInt8.ofNat).reverse.mapM (fun d => readAt kAlphabet d.toNat) =
      .ok ((Nat.digits 58 (Numeral.value 256 (data.map UInt8.toNat))).reverse.map symbol) := by
    rw [← mapM_readAt hdigits, ← List.map_reverse]
    conv_rhs => rw [← map_toNat_ofNat (b := 58) (by norm_num) hdigits, List.mapM_map]
    rfl
  rw [base58Encode, hfold, Outcome.ok_bind, hout, Outcome.ok_bind, readAt_eq_ok (by decide),
    Outcome.ok_bind, numeral]
  rfl

/-- The outer loop of `Base58Decode` over characters of the alphabet. -/
lemma foldlM_decode {ds : List ℕ} (h : ∀ d ∈ ds, d < 58) :
    (ds.map symbol).foldlM decodeStep [] =
      .ok ((Nat.digits 256 (Numeral.value 58 ds)).map UInt8.ofNat) := by
  have hfold := foldlM_absorb decodeOps (m := 58) (by norm_num) ds h
  rw [List.foldlM_map]
  refine Eq.trans (Outcome.foldlM_congr [] fun bytes d hd => ?_) hfold
  rw [decodeStep, idxOf?_symbol (h d hd)]
  rfl

/-- **`Base58Decode` in closed form** on the symbols of a digit text. -/
theorem base58Decode_map {ds : List ℕ} (h : ∀ d ∈ ds, d < 58) :
    base58Decode (ds.map symbol) =
      .ok ((Numeral.text 256 (Numeral.leadingZeros ds) (Numeral.value 58 ds)).map UInt8.ofNat) := by
  rw [base58Decode, foldlM_decode h, Outcome.ok_bind, readAt_eq_ok (by decide), Outcome.ok_bind]
  have hone : kAlphabet[0] = symbol 0 := by decide
  rw [hone, leadingOnes_map h, Numeral.text, List.map_append, List.map_replicate,
    List.map_reverse]
  rfl

/-- `Base58Decode` rejects the first character outside the alphabet. -/
lemma base58Decode_of_not_mem {text : Str} (h : ∃ c ∈ text, c ∉ kAlphabet) :
    ∃ c ∈ text, c ∉ kAlphabet ∧
      base58Decode text = .error (.decode (str "invalid base58 character: " ++ [c])) := by
  obtain ⟨c, hc, hbad⟩ := h
  obtain ⟨pre, c, post, rfl, hpre, hbad⟩ :
      ∃ pre c post, text = pre ++ c :: post ∧ (∀ x ∈ pre, x ∈ kAlphabet) ∧ c ∉ kAlphabet := by
    induction text with
    | nil => simp at hc
    | cons x xs ih =>
      by_cases hx : x ∈ kAlphabet
      · have hc' : c ∈ xs := by
          rcases List.mem_cons.mp hc with rfl | h
          · exact absurd hx hbad
          · exact h
        obtain ⟨pre, y, post, rfl, hpre, hy⟩ := ih hc'
        exact ⟨x :: pre, y, post, rfl, by simpa [hx] using hpre, hy⟩
      · exact ⟨[], x, xs, rfl, by simp, hx⟩
  refine ⟨c, by simp, hbad, ?_⟩
  have hds : ∀ d ∈ pre.map digitOf, d < 58 := by
    intro d hd
    obtain ⟨x, hx, rfl⟩ := List.mem_map.mp hd
    exact (symbol_digitOf (hpre x hx)).2
  have hpre' : (pre.map digitOf).map symbol = pre := by
    rw [List.map_map]
    conv_rhs => rw [← List.map_id pre]
    exact List.map_congr_left fun x hx => (symbol_digitOf (hpre x hx)).1
  have hfold := foldlM_decode hds
  rw [hpre'] at hfold
  rw [base58Decode, List.foldlM_append, hfold, Outcome.ok_bind, List.foldlM_cons, decodeStep,
    List.idxOf?_eq_none_iff.mpr hbad]
  rfl

/-! ## The two functions are inverse -/

/-- Reading back the text of a byte sequence. -/
lemma base58Decode_numeral (data : Bytes) : base58Decode (numeral data) = .ok data := by
  rw [numeral_eq_map, base58Decode_map (Numeral.text_lt (by norm_num) _ _),
    Numeral.leadingZeros_text, Numeral.value_text, Numeral.text_value (by norm_num) (bytes_lt data),
    List.map_map]
  congr 1
  conv_rhs => rw [← List.map_id data]
  exact List.map_congr_left fun b _ => UInt8.ofNat_toNat

/-- A text over the alphabet is the text of the bytes it decodes to. -/
lemma base58Decode_alphabet {text : Str} (h : ∀ c ∈ text, c ∈ kAlphabet) :
    ∃ data, base58Decode text = .ok data ∧ numeral data = text := by
  have hds : ∀ d ∈ text.map digitOf, d < 58 := by
    intro d hd
    obtain ⟨x, hx, rfl⟩ := List.mem_map.mp hd
    exact (symbol_digitOf (h x hx)).2
  have htext : (text.map digitOf).map symbol = text := by
    rw [List.map_map]
    conv_rhs => rw [← List.map_id text]
    exact List.map_congr_left fun x hx => (symbol_digitOf (h x hx)).1
  have hdec := base58Decode_map hds
  rw [htext] at hdec
  refine ⟨_, hdec, ?_⟩
  rw [numeral_eq_map, map_toNat_ofNat (b := 256) le_rfl (Numeral.text_lt (by norm_num) _ _),
    Numeral.leadingZeros_text, Numeral.value_text, Numeral.text_value (by norm_num) hds, htext]

/-- The text of a byte sequence is over the alphabet. -/
lemma numeral_mem (data : Bytes) : ∀ c ∈ numeral data, c ∈ kAlphabet := by
  intro c hc
  rw [numeral_eq_map] at hc
  obtain ⟨d, hd, rfl⟩ := List.mem_map.mp hc
  exact symbol_mem (Numeral.text_lt (by norm_num) _ _ d hd)

/-- **Base58 is a bijection** between byte sequences and texts over the 58 characters.
`Base58Encode` always returns, with the text `numeral`, and `Base58Decode` returns the bytes it
came from; every text over the alphabet decodes, to bytes it is the text of; and decoding throws
a `Decode` error exactly on the texts with another character. Since neither function ever ends
in a fault of another kind, no digit, byte or carry of the loops leaves its type's range. -/
theorem inverse_bijections :
    (∀ data, base58Encode data = .ok (numeral data) ∧ (∀ c ∈ numeral data, c ∈ kAlphabet) ∧
      (base58Encode data >>= base58Decode) = .ok data) ∧
    (∀ text, (∀ c ∈ text, c ∈ kAlphabet) → (base58Decode text >>= base58Encode) = .ok text) ∧
    (∀ text, (∃ message, base58Decode text = .error (.decode message)) ↔
      ∃ c ∈ text, c ∉ kAlphabet) ∧
    (∀ text, base58Decode text ≠ .error .undefinedBehavior ∧
      base58Decode text ≠ .error .valueLost) := by
  refine ⟨fun data => ⟨base58Encode_eq data, numeral_mem data, ?_⟩, fun text h => ?_,
    fun text => ?_, fun text => ?_⟩
  · rw [base58Encode_eq, Outcome.ok_bind, base58Decode_numeral]
  · obtain ⟨data, hdec, hnum⟩ := base58Decode_alphabet h
    rw [hdec, Outcome.ok_bind, base58Encode_eq, hnum]
  · constructor
    · rintro ⟨message, herr⟩
      by_contra hall
      push Not at hall
      obtain ⟨data, hdec, -⟩ := base58Decode_alphabet hall
      rw [hdec] at herr
      cases herr
    · intro hbad
      obtain ⟨c, -, -, herr⟩ := base58Decode_of_not_mem hbad
      exact ⟨_, herr⟩
  · by_cases hall : ∀ c ∈ text, c ∈ kAlphabet
    · obtain ⟨data, hdec, -⟩ := base58Decode_alphabet hall
      simp [hdec]
    · push Not at hall
      obtain ⟨c, -, -, herr⟩ := base58Decode_of_not_mem hall
      simp [herr, Fault.decode]

end RaCommon.Base58
