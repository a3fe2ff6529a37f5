import RaCommon.Library.BaseEncoding
import RaCommon.Library.BitAccumulator
import RaCommon.Runtime.Outcome

set_option relaxedAutoImplicit false
set_option autoImplicit false

/-!
# Base64 (`encoding.hpp`)

`Base64Encode` reads three bytes at a time into a 24-bit number and writes its four sextets, with
`=` padding for an incomplete last group. `Base64Decode` shifts sextets into an `int` that is
never masked, so that it wraps modulo `2³²`, and emits a byte whenever eight bits are pending;
`=`, CR and LF are skipped wherever they stand.

## Main definitions

* `RaCommon.Base64.base64Encode`, `RaCommon.Base64.base64Decode` — the two functions.
* `RaCommon.Base64.reference` — the standard's base64 over the source's alphabet.

## Main results

* `RaCommon.Base64.base64Encode_eq` — the encoder is the standard's.
* `RaCommon.Base64.base64Decode_eq` — what the decoder returns on a text it accepts.
* `RaCommon.Base64.base64Decode_base64Encode` — the round trip.
* `RaCommon.Base64.base64_correct` — these together, and the texts that are accepted.
-/

namespace RaCommon.Base64

open BitString BitAccumulator

/-! ## The encoder -/

/-- `kAlphabet`. -/
def kAlphabet : Str := str "ABCDEFGHIJKLMNOPQRSTUVWXYZabcdefghijklmnopqrstuvwxyz0123456789+/"

/-- `kAlphabet[i]`; every index of the source is masked to six bits. -/
def symbol (i : ℕ) : UInt8 := kAlphabet.getD i 0

/-- `kAlphabet[(n >> s) & 0x3f]`. -/
def sextet (n : UInt32) (s : UInt32) : UInt8 := symbol ((n >>> s) &&& 0x3f).toNat

/-- The number of three bytes, `(a << 16) | (b << 8) | c`. -/
def pack (a b c : UInt8) : UInt32 := (a.toUInt32 <<< 16) ||| (b.toUInt32 <<< 8) ||| c.toUInt32

/-- `Base64Encode`: the loop over groups of three bytes, and the two incomplete groups. -/
def base64Encode : Bytes → Str
  | a :: b :: c :: data =>
    let n := pack a b c
    sextet n 18 :: sextet n 12 :: sextet n 6 :: sextet n 0 :: base64Encode data
  | [a] =>
    let n := a.toUInt32 <<< 16
    [sextet n 18, sextet n 12] ++ str "=="
  | [a, b] =>
    let n := (a.toUInt32 <<< 16) ||| (b.toUInt32 <<< 8)
    [sextet n 18, sextet n 12, sextet n 6] ++ str "="
  | [] => []

/-! ## The decoder -/

/-- `decode_char`. -/
def decodeChar (c : UInt8) : ℤ :=
  let c : ℤ := c.toNat
  if 65 ≤ c ∧ c ≤ 90 then c - 65
  else if 97 ≤ c ∧ c ≤ 122 then c - 97 + 26
  else if 48 ≤ c ∧ c ≤ 57 then c - 48 + 52
  else if c = 43 then 62
  else if c = 47 then 63
  else -1

/-- The local variables of `Base64Decode`. The shift of the `int` `buffer` is modulo `2³²`. -/
structure DecodeState where
  out : Bytes
  buffer : BitVec 32
  bits : ℕ

/-- `ch == '=' || ch == '\n' || ch == '\r'`. -/
def skipped (ch : UInt8) : Prop := ch = 61 ∨ ch = 10 ∨ ch = 13

instance (ch : UInt8) : Decidable (skipped ch) := inferInstanceAs (Decidable (_ ∨ _ ∨ _))

/-- What the loop does with the six bits of an accepted character. -/
def shiftIn (s : DecodeState) (val : ℤ) : DecodeState :=
  let buffer := (s.buffer <<< 6) ||| BitVec.ofInt 32 val
  let bits := s.bits + 6
  if 8 ≤ bits then
    let byte := (buffer.sshiftRight (bits - 8)) &&& 0xff
    ⟨s.out ++ [UInt8.ofNat byte.toNat], buffer, bits - 8⟩
  else ⟨s.out, buffer, bits⟩

/-- One round of the loop over the text. -/
def decodeStep (s : DecodeState) (ch : UInt8) : Outcome DecodeState :=
  if skipped ch then .ok s
  else
    let val := decodeChar ch
    if val < 0 then .error (.decode (str "invalid base64 character: " ++ [ch]))
    else .ok (shiftIn s val)

/-- `Base64Decode`. -/
def base64Decode (text : Str) : Outcome Bytes := do
  let s ← text.foldlM decodeStep ⟨[], 0, 0⟩
  .ok s.out

/-! ## The encoder is the standard's -/

/-- The standard's base64 text of a byte sequence. -/
def reference (data : Bytes) : Str := BaseEncoding.base64 symbol 61 data

/-- A sextet of the 24-bit number is a group of six of its bits. -/
lemma sextet_eq (n s : UInt32) (hs : s.toNat < 32) :
    sextet n s = symbol (n.toNat / 2 ^ s.toNat % 64) := by
  rw [sextet, UInt32.toNat_and, UInt32.toNat_shiftRight, Nat.mod_eq_of_lt hs,
    Nat.shiftRight_eq_div_pow]
  congr 1
  exact Nat.and_two_pow_sub_one_eq_mod _ 6

/-- A byte moved to the left inside 32 bits. -/
lemma toNat_shiftLeft_byte (a : UInt8) (s : UInt32) (hs : s.toNat ≤ 24) :
    (a.toUInt32 <<< s).toNat = a.toNat <<< s.toNat := by
  rw [UInt32.toNat_shiftLeft, UInt8.toNat_toUInt32,
    Nat.mod_eq_of_lt (show s.toNat < 32 by omega)]
  refine Nat.mod_eq_of_lt ?_
  rw [Nat.shiftLeft_eq]
  calc a.toNat * 2 ^ s.toNat < 2 ^ 8 * 2 ^ s.toNat :=
        Nat.mul_lt_mul_of_pos_right a.toNat_lt (by positivity)
    _ ≤ 2 ^ 8 * 2 ^ 24 := Nat.mul_le_mul_left _ (Nat.pow_le_pow_right (by norm_num) hs)
    _ = 2 ^ 32 := by norm_num

/-- The number of two bytes, in the high bits of 24. -/
lemma toNat_or_byte (a b : UInt8) :
    ((a.toUInt32 <<< 16) ||| (b.toUInt32 <<< 8)).toNat = (a.toNat * 2 ^ 8 + b.toNat) * 2 ^ 8 := by
  rw [UInt32.toNat_or, toNat_shiftLeft_byte a 16 (by decide), toNat_shiftLeft_byte b 8 (by decide)]
  change a.toNat <<< (8 + 8) ||| b.toNat <<< 8 = _
  rw [Nat.shiftLeft_add, ← Nat.shiftLeft_or_distrib, ← Nat.shiftLeft_add_eq_or_of_lt b.toNat_lt,
    Nat.shiftLeft_eq, Nat.shiftLeft_eq]

/-- The number of three bytes. -/
lemma pack_toNat (a b c : UInt8) :
    (pack a b c).toNat = (a.toNat * 2 ^ 8 + b.toNat) * 2 ^ 8 + c.toNat := by
  rw [pack, UInt32.toNat_or, toNat_or_byte, UInt8.toNat_toUInt32, ← Nat.shiftLeft_eq _ 8,
    ← Nat.shiftLeft_add_eq_or_of_lt c.toNat_lt]

/-- The symbols of at most three bytes: the sextets of their number, moved to the left by the
bits that fill the last one. -/
lemma symbols_eq (data : Bytes) :
    BaseEncoding.symbols 6 data =
      (List.range ((8 * data.length + (6 - 8 * data.length % 6) % 6) / 6)).map fun i =>
        toNat (ofBytes data) * 2 ^ ((6 - 8 * data.length % 6) % 6) /
          2 ^ (8 * data.length + (6 - 8 * data.length % 6) % 6 - 6 * (i + 1)) % 64 := by
  rw [BaseEncoding.symbols, map_toNat_groups, toNat_append_replicate_false]
  simp

/-- Three bytes make four symbols of their own. -/
lemma reference_cons_three (a b c : UInt8) (data : Bytes) :
    reference (a :: b :: c :: data) =
      (BaseEncoding.symbols 6 [a, b, c]).map symbol ++ reference data := by
  have hsym : BaseEncoding.symbols 6 (a :: b :: c :: data) =
      BaseEncoding.symbols 6 [a, b, c] ++ BaseEncoding.symbols 6 data :=
    BaseEncoding.symbols_append (d := [a, b, c]) (by norm_num) (by norm_num) data
  have hfour : (BaseEncoding.symbols 6 [a, b, c]).length = 4 := by
    simp [BaseEncoding.length_symbols]
  have hpad : (4 - (4 + (BaseEncoding.symbols 6 data).length) % 4) % 4 =
      (4 - (BaseEncoding.symbols 6 data).length % 4) % 4 := by omega
  simp only [reference, BaseEncoding.base64, hsym, List.map_append, List.length_append,
    List.length_map, hfour, hpad, List.append_assoc]

/-- The four sextets of three bytes. -/
lemma symbols_three (a b c : UInt8) :
    (BaseEncoding.symbols 6 [a, b, c]).map symbol =
      [sextet (pack a b c) 18, sextet (pack a b c) 12, sextet (pack a b c) 6,
        sextet (pack a b c) 0] := by
  have hnum : toNat (ofBytes [a, b, c]) = (pack a b c).toNat := by
    simp only [toNat_ofBytes_cons, pack_toNat, ofBytes_nil, toNat_nil, List.length_cons,
      List.length_nil]
    ring
  rw [sextet_eq _ 18 (by decide), sextet_eq _ 12 (by decide), sextet_eq _ 6 (by decide),
    sextet_eq _ 0 (by decide), symbols_eq, hnum]
  simp [List.range_succ]

/-- The two sextets of one byte. -/
lemma symbols_one (a : UInt8) :
    (BaseEncoding.symbols 6 [a]).map symbol =
      [sextet (a.toUInt32 <<< 16) 18, sextet (a.toUInt32 <<< 16) 12] := by
  have hnum : toNat (ofBytes [a]) = a.toNat := by
    simp only [toNat_ofBytes_cons, ofBytes_nil, toNat_nil, List.length_nil]
    ring
  have hn : (a.toUInt32 <<< 16).toNat = a.toNat * 2 ^ 16 := by
    rw [← Nat.shiftLeft_eq]
    exact toNat_shiftLeft_byte a 16 (by decide)
  rw [sextet_eq _ 18 (by decide), sextet_eq _ 12 (by decide), symbols_eq, hnum, hn]
  simp only [List.length_cons, List.length_nil, List.range_succ, List.range_zero, List.map_cons,
    List.map_nil, List.nil_append, List.cons_append, List.cons.injEq, and_true,
    UInt32.reduceToNat, Nat.reduceAdd, Nat.reduceMul, Nat.reduceMod, Nat.reduceSub, Nat.reduceDiv,
    Nat.reducePow]
  exact ⟨congrArg symbol (by omega), congrArg symbol (by omega)⟩

/-- The three sextets of two bytes. -/
lemma symbols_two (a b : UInt8) :
    (BaseEncoding.symbols 6 [a, b]).map symbol =
      [sextet ((a.toUInt32 <<< 16) ||| (b.toUInt32 <<< 8)) 18,
        sextet ((a.toUInt32 <<< 16) ||| (b.toUInt32 <<< 8)) 12,
        sextet ((a.toUInt32 <<< 16) ||| (b.toUInt32 <<< 8)) 6] := by
  have hnum : toNat (ofBytes [a, b]) = a.toNat * 2 ^ 8 + b.toNat := by
    simp only [toNat_ofBytes_cons, ofBytes_nil, toNat_nil, List.length_cons, List.length_nil]
    ring
  rw [sextet_eq _ 18 (by decide), sextet_eq _ 12 (by decide), sextet_eq _ 6 (by decide),
    symbols_eq, hnum, toNat_or_byte]
  simp only [List.length_cons, List.length_nil, List.range_succ, List.range_zero, List.map_cons,
    List.map_nil, List.nil_append, List.cons_append, List.cons.injEq, and_true,
    UInt32.reduceToNat, Nat.reduceAdd, Nat.reduceMul, Nat.reduceMod, Nat.reduceSub, Nat.reduceDiv,
    Nat.reducePow]
  exact ⟨congrArg symbol (by omega), congrArg symbol (by omega), congrArg symbol (by omega)⟩

/-- **The encoder is the standard's base64.**

**Proof sketch.** By the cases of the loop. Three bytes make the 24-bit number
`a · 2¹⁶ + b · 2⁸ + c`, whose four sextets are the groups of its bits; one and two bytes make
the same number with the bits that fill their last sextet. -/
theorem base64Encode_eq (data : Bytes) : base64Encode data = reference data := by
  induction data using base64Encode.induct with
  | case1 a b c data ih =>
    rw [reference_cons_three, base64Encode, ih, symbols_three]
    rfl
  | case2 a =>
    rw [reference, BaseEncoding.base64, symbols_one]
    rfl
  | case3 a b =>
    rw [reference, BaseEncoding.base64, symbols_two]
    rfl
  | case4 => rfl

/-! ## The decoder -/

/-- The value of an accepted character is a sextet. -/
lemma decodeChar_range {c : UInt8} (h : 0 ≤ decodeChar c) :
    ∃ v : ℕ, decodeChar c = v ∧ v < 64 := by
  refine ⟨(decodeChar c).toNat, (Int.toNat_of_nonneg h).symm, ?_⟩
  unfold decodeChar at h ⊢
  dsimp only at h ⊢
  split_ifs at h ⊢ <;> omega

/-- The loop invariant: the sextets read so far are the bytes written followed by fewer than
eight pending bits, which are the low bits of the buffer. -/
structure Pending (s : DecodeState) (values : List ℕ) : Prop where
  bits_lt : s.bits < 8
  split : ∃ pending : List Bool, values.flatMap (ofNat 6) = ofBytes s.out ++ pending ∧
    pending.length = s.bits ∧ toNat pending = s.buffer.toNat % 2 ^ s.bits

/-- **One sextet keeps the invariant.** -/
theorem Pending.shiftIn {s : DecodeState} {values : List ℕ} (h : Pending s values) {v : ℕ}
    (hv : v < 64) : Pending (shiftIn s v) (values ++ [v]) := by
  obtain ⟨pending, hflat, hlen, hnum⟩ := h.split
  have hb := h.bits_lt
  have hholds : Holds s.buffer pending := by rw [Holds, hlen, hnum]
  have hread : Holds ((s.buffer <<< 6) ||| BitVec.ofInt 32 (v : ℤ)) (pending ++ ofNat 6 v) := by
    rw [BitVec.ofInt_natCast]
    exact hholds.shiftIn hv (by omega)
  have hall : (values ++ [v]).flatMap (ofNat 6) = ofBytes s.out ++ (pending ++ ofNat 6 v) := by
    simp [hflat]
  have hlen' : (pending ++ ofNat 6 v).length = s.bits + 6 := by simp [hlen]
  unfold Base64.shiftIn
  generalize (s.buffer <<< 6) ||| BitVec.ofInt 32 (v : ℤ) = buffer at hread ⊢
  generalize pending ++ ofNat 6 v = next at hread hall hlen'
  by_cases h8 : 8 ≤ s.bits + 6
  · -- the first eight pending bits become a byte
    have hdrop : (next.drop 8).length = s.bits + 6 - 8 := by rw [List.length_drop, hlen']
    have hbyte := hread.ofNat_byte (by omega) (by omega)
    rw [hlen', show mask 8 = 0xff from rfl] at hbyte
    have hrest := hread.drop 8
    rw [Holds, hdrop] at hrest
    simp only [h8, if_true]
    refine ⟨by simp only; omega, next.drop 8, ?_, hdrop, hrest.symm⟩
    rw [hall, ofBytes_append, ofBytes_cons, ofBytes_nil, List.append_nil, hbyte,
      List.append_assoc, List.take_append_drop]
  · rw [Holds, hlen'] at hread
    simp only [h8, if_false]
    exact ⟨by simp only; omega, next, hall, hlen', hread.symm⟩

/-- The characters of a text that reach `decode_char`. -/
def payload (text : Str) : Str := text.filter fun ch => ¬ skipped ch

/-- The values of the characters of a text that reach `decode_char`. -/
def values (text : Str) : List ℕ := (payload text).map fun ch => (decodeChar ch).toNat

/-- The whole loop over characters that are all accepted. -/
lemma foldlM_decodeStep (text : Str) (h : ∀ ch ∈ payload text, 0 ≤ decodeChar ch)
    (s : DecodeState) (done : List ℕ) (hs : Pending s done) :
    ∃ s', text.foldlM decodeStep s = .ok s' ∧ Pending s' (done ++ values text) := by
  induction text generalizing s done with
  | nil => exact ⟨s, rfl, by simpa [values, payload] using hs⟩
  | cons ch text ih =>
    by_cases hskip : skipped ch
    · have hpay : payload (ch :: text) = payload text := by simp [payload, hskip]
      rw [hpay] at h
      obtain ⟨s', hrun, hpend⟩ := ih h s done hs
      refine ⟨s', ?_, by rwa [values, hpay, ← values]⟩
      rw [List.foldlM_cons, decodeStep, if_pos hskip, Outcome.ok_bind, hrun]
    · have hpay : payload (ch :: text) = ch :: payload text := by simp [payload, hskip]
      rw [hpay] at h
      have hch : 0 ≤ decodeChar ch := h ch (by simp)
      obtain ⟨v, hv, hlt⟩ := decodeChar_range hch
      obtain ⟨s', hrun, hpend⟩ := ih (fun c hc => h c (by simp [hc])) _ _ (hs.shiftIn hlt)
      refine ⟨s', ?_, ?_⟩
      · rw [List.foldlM_cons, decodeStep, if_neg hskip]
        simp only [hv, Int.not_lt.mpr (Int.natCast_nonneg v), if_false]
        exact hrun
      · rwa [values, hpay, List.map_cons, ← values, hv, Int.toNat_natCast, ← List.singleton_append,
          ← List.append_assoc]

/-- **What the decoder returns**: a text whose characters are alphabet symbols, `=`, CR and LF
decodes to the bytes of its symbols, wherever the others stand.

**Proof sketch.** The loop invariant `Pending` relates the sextets read to the bytes written and
to fewer than eight pending bits of the buffer; at the end the pending bits make no byte. -/
theorem base64Decode_eq {text : Str} (h : ∀ ch ∈ payload text, 0 ≤ decodeChar ch) :
    base64Decode text = .ok (BaseEncoding.octets 6 (values text)) := by
  have hinit : Pending ⟨[], 0, 0⟩ [] := ⟨by simp, [], by simp⟩
  obtain ⟨s', hrun, hpend⟩ := foldlM_decodeStep text h _ _ hinit
  obtain ⟨pending, hflat, hlen, -⟩ := hpend.split
  have hbits := hpend.bits_lt
  rw [base64Decode, hrun, Outcome.ok_bind, BaseEncoding.octets, ← List.nil_append (values text),
    hflat, toBytes_ofBytes_append _ (by omega)]

/-- Any other character is an error. -/
lemma base64Decode_eq_error {text : Str} (h : ∃ ch ∈ payload text, decodeChar ch < 0) :
    ∃ message, base64Decode text = .error (.decode message) := by
  suffices hloop : ∀ s, ∃ message, text.foldlM decodeStep s = .error (.decode message) by
    obtain ⟨message, hrun⟩ := hloop ⟨[], 0, 0⟩
    exact ⟨message, by rw [base64Decode, hrun, Outcome.error_bind]⟩
  induction text with
  | nil => simp [payload] at h
  | cons c text ih =>
    intro s
    rw [List.foldlM_cons, decodeStep]
    by_cases hskip : skipped c
    · rw [if_pos hskip, Outcome.ok_bind]
      exact ih (by simpa [payload, hskip] using h) s
    · rw [if_neg hskip]
      by_cases hc : decodeChar c < 0
      · simp only [hc, if_true, Outcome.error_bind]
        exact ⟨_, rfl⟩
      · simp only [hc, if_false, Outcome.ok_bind]
        refine ih ?_ _
        obtain ⟨ch, hch, hneg⟩ := h
        simp only [payload, List.mem_filter, List.mem_cons] at hch ⊢
        obtain ⟨rfl | hmem, hns⟩ := hch
        · exact absurd hneg hc
        · exact ⟨ch, ⟨hmem, hns⟩, hneg⟩

/-- A text decodes exactly when all its characters are accepted. -/
lemma base64Decode_eq_ok {text : Str} {data : Bytes} :
    base64Decode text = .ok data ↔
      (∀ ch ∈ payload text, 0 ≤ decodeChar ch) ∧ data = BaseEncoding.octets 6 (values text) := by
  by_cases h : ∀ ch ∈ payload text, 0 ≤ decodeChar ch
  · rw [base64Decode_eq h, Except.ok.injEq, and_iff_right h]
    exact eq_comm
  · have hbad : ∃ ch ∈ payload text, decodeChar ch < 0 := by simpa using h
    obtain ⟨message, hrun⟩ := base64Decode_eq_error hbad
    rw [hrun]
    exact iff_of_false (by simp) fun hall => h hall.1

/-! ## The round trip -/

/-- A symbol of the alphabet is read as its own index, and is not skipped. -/
lemma decodeChar_symbol {v : ℕ} (hv : v < 64) :
    decodeChar (symbol v) = v ∧ ¬ skipped (symbol v) := by
  have h : ∀ j : Fin 64, decodeChar (symbol j) = j.val ∧ ¬ skipped (symbol j) := by
    decide +kernel
  exact h ⟨v, hv⟩

/-- The characters of base64 text: symbols and padding. -/
lemma mem_base64Encode {data : Bytes} {ch : UInt8} (h : ch ∈ base64Encode data) :
    (∃ v < 64, ch = symbol v) ∨ ch = 61 := by
  rw [base64Encode_eq, reference, BaseEncoding.base64, List.mem_append] at h
  rcases h with h | h
  · obtain ⟨v, hv, rfl⟩ := List.mem_map.mp h
    exact .inl ⟨v, BaseEncoding.symbols_lt data v hv, rfl⟩
  · exact .inr (List.eq_of_mem_replicate h)

/-- The symbols of base64 text are those of the data. -/
lemma payload_base64Encode (data : Bytes) :
    payload (base64Encode data) = (BaseEncoding.symbols 6 data).map symbol := by
  rw [base64Encode_eq, reference, BaseEncoding.base64, payload, List.filter_append,
    List.filter_eq_self.mpr, List.filter_eq_nil_iff.mpr, List.append_nil]
  · intro ch hch
    simp [List.eq_of_mem_replicate hch, skipped]
  · intro ch hch
    obtain ⟨v, hv, rfl⟩ := List.mem_map.mp hch
    simpa using (decodeChar_symbol (BaseEncoding.symbols_lt data v hv)).2

/-- **The round trip.** -/
theorem base64Decode_base64Encode (data : Bytes) : base64Decode (base64Encode data) = .ok data := by
  have hlt := BaseEncoding.symbols_lt (k := 6) data
  rw [base64Decode_eq_ok, values, payload_base64Encode]
  refine ⟨fun ch hch => ?_, ?_⟩
  · obtain ⟨v, hv, rfl⟩ := List.mem_map.mp hch
    rw [(decodeChar_symbol (hlt v hv)).1]
    exact Int.natCast_nonneg v
  · have hback : ((BaseEncoding.symbols 6 data).map symbol).map (fun ch => (decodeChar ch).toNat) =
        BaseEncoding.symbols 6 data := by
      rw [List.map_map]
      conv_rhs => rw [← List.map_id (BaseEncoding.symbols 6 data)]
      refine List.map_congr_left fun v hv => ?_
      simp [(decodeChar_symbol (hlt v hv)).1]
    rw [hback, BaseEncoding.octets_symbols (by norm_num) (by norm_num)]

/-! ## Every text -/

/-- The characters of the alphabet are its symbols. -/
lemma mem_kAlphabet {c : UInt8} : c ∈ kAlphabet ↔ ∃ v < 64, c = symbol v := by
  have hall : kAlphabet = (List.range 64).map symbol := by decide +kernel
  rw [hall, List.mem_map]
  simp only [List.mem_range, eq_comm]

/-- A symbol of the alphabet is at its own index. -/
lemma idxOf_symbol {v : ℕ} (hv : v < 64) : kAlphabet.idxOf (symbol v) = v := by
  have h : ∀ j : Fin 64, kAlphabet.idxOf (symbol j) = j.val := by decide +kernel
  exact h ⟨v, hv⟩

/-- A character that `decode_char` accepts is the symbol of its value. -/
lemma symbol_decodeChar {c : UInt8} (h : 0 ≤ decodeChar c) :
    symbol (decodeChar c).toNat = c := by
  revert c
  apply forall_byte
  decide +kernel

/-- The characters that `decode_char` accepts are those of the alphabet, read as their indices. -/
lemma decodeChar_kAlphabet (c : UInt8) :
    (0 ≤ decodeChar c ↔ c ∈ kAlphabet) ∧
      (c ∈ kAlphabet → (decodeChar c).toNat = kAlphabet.idxOf c ∧ ¬skipped c) := by
  refine ⟨⟨fun h => ?_, fun h => ?_⟩, fun h => ?_⟩
  · obtain ⟨v, hv, hlt⟩ := decodeChar_range h
    have hc := symbol_decodeChar h
    rw [hv, Int.toNat_natCast] at hc
    exact mem_kAlphabet.mpr ⟨v, hlt, hc.symm⟩
  · obtain ⟨v, hv, rfl⟩ := mem_kAlphabet.mp h
    rw [(decodeChar_symbol hv).1]
    exact Int.natCast_nonneg v
  · obtain ⟨v, hv, rfl⟩ := mem_kAlphabet.mp h
    rw [(decodeChar_symbol hv).1, Int.toNat_natCast, idxOf_symbol hv]
    exact ⟨rfl, (decodeChar_symbol hv).2⟩

/-- The six-bit groups of the alphabet characters of a text, in order. -/
def sextets (text : Str) : List ℕ :=
  (text.filter (· ∈ kAlphabet)).map fun ch => kAlphabet.idxOf ch

/-- In a text that is accepted, the characters that are not skipped are those of the alphabet. -/
lemma values_eq_sextets {text : Str} (h : ∀ ch ∈ text, ch ∈ kAlphabet ∨ skipped ch) :
    values text = sextets text := by
  have hpayload : payload text = text.filter (· ∈ kAlphabet) := by
    refine List.filter_congr fun ch hch => ?_
    have hchar := (decodeChar_kAlphabet ch).2
    rcases h ch hch with halphabet | hskip
    · simp [halphabet, (hchar halphabet).2]
    · have hnot : ch ∉ kAlphabet := fun halphabet => (hchar halphabet).2 hskip
      simp [hnot, hskip]
  rw [values, hpayload, sextets]
  refine List.map_congr_left fun ch hch => ?_
  have hmem : ch ∈ kAlphabet := by simpa using (List.mem_filter.mp hch).2
  exact ((decodeChar_kAlphabet ch).2 hmem).1

/-- A text with alphabet characters, `=`, CR and LF only. -/
lemma base64Decode_of_accepted {text : Str} (h : ∀ ch ∈ text, ch ∈ kAlphabet ∨ skipped ch) :
    base64Decode text = .ok (BaseEncoding.octets 6 (sextets text)) := by
  rw [← values_eq_sextets h]
  refine base64Decode_eq fun ch hch => ?_
  obtain ⟨hmem, hskip⟩ := List.mem_filter.mp hch
  exact (decodeChar_kAlphabet ch).1.mpr ((h ch hmem).resolve_right (by simpa using hskip))

/-- A text with another character. -/
lemma base64Decode_of_rejected {text : Str} (h : ∃ ch ∈ text, ch ∉ kAlphabet ∧ ¬skipped ch) :
    ∃ message, base64Decode text = .error (.decode message) := by
  obtain ⟨ch, hmem, hnot, hskip⟩ := h
  refine base64Decode_eq_error ⟨ch, by simp [payload, hmem, hskip], ?_⟩
  exact Int.not_le.mp fun hle => hnot ((decodeChar_kAlphabet ch).1.mp hle)

/-- The length of the standard's text. -/
lemma length_base64Encode (data : Bytes) :
    (base64Encode data).length = 4 * ((data.length + 2) / 3) := by
  rw [base64Encode_eq, reference, BaseEncoding.base64, List.length_append, List.length_replicate,
    List.length_map, BaseEncoding.length_symbols]
  omega

/-- **Base64**: the encoder writes the standard's text with padding, four characters for each three
bytes begun, and the decoder reads it back. The decoder rejects exactly the texts with a character
that is neither of the alphabet nor `=`, CR or LF; of another text it returns the whole bytes of the
six-bit groups of its alphabet characters, wherever the others stand. -/
theorem base64_correct (d : Bytes) (t : Str) :
    base64Encode d = reference d ∧
      (base64Encode d).length = 4 * ((d.length + 2) / 3) ∧
      base64Decode (base64Encode d) = .ok d ∧
      ((∃ message, base64Decode t = .error (.decode message)) ↔
        ∃ ch ∈ t, ch ∉ kAlphabet ∧ ¬skipped ch) ∧
      ((∀ ch ∈ t, ch ∈ kAlphabet ∨ skipped ch) →
        base64Decode t = .ok (BaseEncoding.octets 6 (sextets t)) ∧
          (BaseEncoding.octets 6 (sextets t)).length =
            6 * (t.filter (· ∈ kAlphabet)).length / 8) := by
  refine ⟨base64Encode_eq d, length_base64Encode d, base64Decode_base64Encode d,
    ⟨?_, base64Decode_of_rejected⟩, fun h => ⟨base64Decode_of_accepted h, ?_⟩⟩
  · rintro ⟨message, herror⟩
    by_contra hall
    have haccepted : ∀ ch ∈ t, ch ∈ kAlphabet ∨ skipped ch := by
      intro ch hch
      by_contra hnot
      rw [not_or] at hnot
      exact hall ⟨ch, hch, hnot⟩
    rw [base64Decode_of_accepted haccepted] at herror
    cases herror
  · rw [BaseEncoding.length_octets, sextets, List.length_map]

end RaCommon.Base64
