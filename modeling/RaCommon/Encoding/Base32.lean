import Mathlib.Data.List.Induction
import RaCommon.Library.BaseEncoding
import RaCommon.Library.BitAccumulator
import RaCommon.Runtime.Outcome

set_option relaxedAutoImplicit false
set_option autoImplicit false

/-!
# Base32 (`encoding.hpp`)

Both functions shift what they read into an `int` that is never masked, so that it wraps modulo
`2³²`. `Base32Encode` shifts in bytes and writes a character while five bits are pending;
`Base32Decode` shifts in the five bits of each character and writes a byte when eight are.

## Main definitions

* `RaCommon.Base32.base32Encode`, `RaCommon.Base32.base32Decode` — the two functions.
* `RaCommon.Base32.Encoding`, `RaCommon.Base32.Decoding` — the invariants of their loops.

## Main results

* `RaCommon.Base32.base32Encode_eq` — the encoder is the standard's.
* `RaCommon.Base32.base32Decode_map_symbol` — what the decoder returns.
* `RaCommon.Base32.base32_correct` — round trips in both directions, and which texts are rejected.
-/

namespace RaCommon.Base32

open BitString BitAccumulator

/-! ## The functions -/

/-- `kAlphabet`. -/
def kAlphabet : Str := str "ABCDEFGHIJKLMNOPQRSTUVWXYZ234567"

/-- `kAlphabet[i]`; every index of the source is masked to five bits. -/
def symbol (i : ℕ) : UInt8 := kAlphabet.getD i 0

/-- The local variables of `Base32Encode`. The shift of the `int` `value` is modulo `2³²`. -/
structure EncodeState where
  out : Str
  value : BitVec 32
  bits : ℕ

/-- `while (bits >= 5)`. -/
def emit (s : EncodeState) : EncodeState :=
  if 5 ≤ s.bits then
    emit ⟨s.out ++ [symbol (s.value.sshiftRight (s.bits - 5) &&& 0x1f).toNat], s.value, s.bits - 5⟩
  else s
termination_by s.bits

/-- One round of the loop over the bytes. -/
def encodeStep (s : EncodeState) (byte : UInt8) : EncodeState :=
  emit ⟨s.out, (s.value <<< 8) ||| BitVec.ofNat 32 byte.toNat, s.bits + 8⟩

/-- `Base32Encode`. -/
def base32Encode (data : Bytes) : Str :=
  let s := data.foldl encodeStep ⟨[], 0, 0⟩
  if 0 < s.bits then s.out ++ [symbol ((s.value <<< (5 - s.bits)) &&& 0x1f).toNat] else s.out

/-- The local variables of `Base32Decode`. -/
structure DecodeState where
  out : Bytes
  value : BitVec 32
  bits : ℕ

/-- What the loop does with the five bits of an accepted character. -/
def shiftIn (s : DecodeState) (idx : ℕ) : DecodeState :=
  let value := (s.value <<< 5) ||| BitVec.ofNat 32 idx
  let bits := s.bits + 5
  if 8 ≤ bits then
    ⟨s.out ++ [UInt8.ofNat (value.sshiftRight (bits - 8) &&& 0xff).toNat], value, bits - 8⟩
  else ⟨s.out, value, bits⟩

/-- One round of the loop over the characters. A null character, which `strchr` finds at the end of
the alphabet, is rejected like the others that are not in it. -/
def decodeStep (s : DecodeState) (ch : UInt8) : Outcome DecodeState :=
  match kAlphabet.idxOf? ch with
  | none => .error (.decode (str "invalid base32 character: " ++ [ch]))
  | some idx => .ok (shiftIn s idx)

/-- `Base32Decode`. -/
def base32Decode (text : Str) : Outcome Bytes := do
  let s ← text.foldlM decodeStep ⟨[], 0, 0⟩
  .ok s.out

/-! ## The alphabet -/

/-- A symbol of the alphabet is found at its own index. -/
lemma idxOf_symbol {v : ℕ} (hv : v < 32) :
    kAlphabet.idxOf? (symbol v) = some v ∧ kAlphabet.idxOf (symbol v) = v := by
  have h : ∀ j : Fin 32, kAlphabet.idxOf? (symbol j) = some j.val ∧
      kAlphabet.idxOf (symbol j) = j.val := by decide +kernel
  exact h ⟨v, hv⟩

/-- The characters of the alphabet are its symbols. -/
lemma mem_kAlphabet {ch : UInt8} : ch ∈ kAlphabet ↔ ∃ v < 32, ch = symbol v := by
  have hall : kAlphabet = (List.range 32).map symbol := by decide +kernel
  rw [hall, List.mem_map]
  simp only [List.mem_range, eq_comm]

/-- A text over the alphabet is a sequence of symbols. -/
lemma exists_map_symbol {text : Str} (h : ∀ ch ∈ text, ch ∈ kAlphabet) :
    ∃ values : List ℕ, text = values.map symbol ∧ ∀ v ∈ values, v < 32 := by
  induction text with
  | nil => exact ⟨[], rfl, by simp⟩
  | cons ch text ih =>
    obtain ⟨values, rfl, hvalues⟩ := ih fun c hc => h c (by simp [hc])
    obtain ⟨v, hv, rfl⟩ := mem_kAlphabet.mp (h ch (by simp))
    exact ⟨v :: values, rfl, by simpa [hv] using hvalues⟩

/-- Different sequences of symbols are different texts. -/
lemma map_symbol_injective {vs ws : List ℕ} (hv : ∀ v ∈ vs, v < 32) (hw : ∀ w ∈ ws, w < 32)
    (h : vs.map symbol = ws.map symbol) : vs = ws := by
  have hback : ∀ us : List ℕ, (∀ u ∈ us, u < 32) →
      (us.map symbol).map (kAlphabet.idxOf ·) = us := by
    intro us hus
    rw [List.map_map]
    conv_rhs => rw [← List.map_id us]
    exact List.map_congr_left fun u hu => (idxOf_symbol (hus u hu)).2
  rw [← hback vs hv, h, hback ws hw]

/-! ## The encoder is the standard's -/

/-- The invariant of the encoder: the bits of the bytes read are those of the characters written,
followed by the pending ones, which are the lowest bits of `value`. -/
structure Encoding (s : EncodeState) (values : List ℕ) (pending : List Bool) (data : Bytes) :
    Prop where
  split : ofBytes data = values.flatMap (ofNat 5) ++ pending
  lt : ∀ v ∈ values, v < 32
  out : s.out = values.map symbol
  length : pending.length = s.bits
  holds : Holds s.value pending

/-- The first five pending bits make a character. -/
lemma Encoding.group {s : EncodeState} {values : List ℕ} {pending : List Bool} {data : Bytes}
    (h : Encoding s values pending data) (h5 : 5 ≤ s.bits) (h32 : s.bits ≤ 32) :
    Encoding
      ⟨s.out ++ [symbol (s.value.sshiftRight (s.bits - 5) &&& 0x1f).toNat], s.value, s.bits - 5⟩
      (values ++ [toNat (pending.take 5)]) (pending.drop 5) data := by
  have hlen := h.length
  have htake : (pending.take 5).length = 5 := by rw [List.length_take]; omega
  have hdrop : (pending.drop 5).length = s.bits - 5 := by rw [List.length_drop, hlen]
  have hlt := toNat_lt (pending.take 5)
  have hback := ofNat_toNat (pending.take 5)
  rw [htake] at hlt hback
  have hgroup := h.holds.toNat_take (w := 5) (by omega) (by omega)
  rw [hlen] at hgroup
  refine ⟨?_, ?_, ?_, hdrop, h.holds.drop 5⟩
  · rw [h.split, List.flatMap_append, List.flatMap_singleton, hback, List.append_assoc,
      List.take_append_drop]
  · intro v hv
    rcases List.mem_append.mp hv with hv | hv
    · exact h.lt v hv
    · rw [List.mem_singleton.mp hv]
      exact hlt
  · rw [List.map_append, ← h.out, List.map_singleton, ← hgroup]
    rfl

/-- The inner loop writes characters until fewer than five bits are pending. -/
lemma Encoding.emit {s : EncodeState} {values : List ℕ} {pending : List Bool} {data : Bytes}
    (h : Encoding s values pending data) (h32 : s.bits ≤ 32) :
    ∃ values' pending', Encoding (emit s) values' pending' data ∧ (Base32.emit s).bits < 5 := by
  fun_induction Base32.emit s generalizing values pending with
  | case1 s h5 ih => exact ih (h.group h5 h32) (by dsimp only; omega)
  | case2 s h5 => exact ⟨values, pending, h, by omega⟩

/-- **One byte keeps the invariant.** -/
theorem Encoding.step {s : EncodeState} {values : List ℕ} {pending : List Bool} {data : Bytes}
    (h : Encoding s values pending data) (h5 : s.bits < 5) (byte : UInt8) :
    ∃ values' pending', Encoding (encodeStep s byte) values' pending' (data ++ [byte]) ∧
      (encodeStep s byte).bits < 5 := by
  have hread : Encoding ⟨s.out, (s.value <<< 8) ||| BitVec.ofNat 32 byte.toNat, s.bits + 8⟩ values
      (pending ++ ofNat 8 byte.toNat) (data ++ [byte]) := by
    have hlen := h.length
    refine ⟨?_, h.lt, h.out, ?_, h.holds.shiftIn byte.toNat_lt (by omega)⟩
    · rw [ofBytes_append, h.split, List.append_assoc]
      rfl
    · rw [List.length_append, length_ofNat, hlen]
  exact hread.emit (by dsimp only; omega)

/-- The loop over all bytes. -/
lemma exists_encoding (data : Bytes) :
    ∃ values pending, Encoding (data.foldl encodeStep ⟨[], 0, 0⟩) values pending data ∧
      (data.foldl encodeStep ⟨[], 0, 0⟩).bits < 5 := by
  induction data using List.reverseRecOn with
  | nil => exact ⟨[], [], ⟨rfl, by simp, rfl, rfl, Holds.nil 0⟩, by decide⟩
  | append_singleton data byte ih =>
    obtain ⟨values, pending, h, h5⟩ := ih
    rw [List.foldl_append]
    exact h.step h5 byte

/-- **The encoder is the standard's base32 without padding.**

**Proof sketch.** By the invariant `Encoding` the characters written are the symbols of whole groups
of five bits, and fewer than five bits are pending at the end; they are the last symbol. -/
theorem base32Encode_eq (data : Bytes) :
    base32Encode data = BaseEncoding.unpadded 5 symbol data := by
  obtain ⟨values, pending, h, h5⟩ := exists_encoding data
  rw [base32Encode, BaseEncoding.unpadded]
  generalize data.foldl encodeStep ⟨[], 0, 0⟩ = s at h h5 ⊢
  have hlen := h.length
  rw [BaseEncoding.symbols_of_split h.split h.lt (by omega), List.map_append, ← h.out]
  by_cases h0 : s.bits = 0
  · rw [if_neg (by omega), if_pos (by omega), List.map_nil, List.append_nil]
  · have hfill := h.holds.toNat_fill (k := 5 - s.bits) (by omega)
    rw [show pending.length + (5 - s.bits) = 5 by omega] at hfill
    rw [if_pos (by omega), if_neg (by omega), List.map_singleton, hlen, ← hfill]
    rfl

/-! ## The decoder -/

/-- The invariant of the decoder: the bits of the characters read are those of the bytes written,
followed by fewer than eight pending ones, which are the lowest bits of `value`. -/
structure Decoding (s : DecodeState) (pending : List Bool) (values : List ℕ) : Prop where
  split : values.flatMap (ofNat 5) = ofBytes s.out ++ pending
  length : pending.length = s.bits
  bits_lt : s.bits < 8
  holds : Holds s.value pending

/-- **One character keeps the invariant.** -/
theorem Decoding.shiftIn {s : DecodeState} {pending : List Bool} {values : List ℕ}
    (h : Decoding s pending values) {v : ℕ} (hv : v < 32) :
    ∃ pending', Decoding (shiftIn s v) pending' (values ++ [v]) := by
  have hlen := h.length
  have hlt := h.bits_lt
  have hread : Holds ((s.value <<< 5) ||| BitVec.ofNat 32 v) (pending ++ ofNat 5 v) :=
    h.holds.shiftIn hv (by omega)
  have hsplit : (values ++ [v]).flatMap (ofNat 5) = ofBytes s.out ++ (pending ++ ofNat 5 v) := by
    rw [List.flatMap_append, List.flatMap_singleton, h.split, List.append_assoc]
  have hlen' : (pending ++ ofNat 5 v).length = s.bits + 5 := by
    rw [List.length_append, length_ofNat, hlen]
  rw [Base32.shiftIn]
  generalize (s.value <<< 5) ||| BitVec.ofNat 32 v = value at hread ⊢
  generalize pending ++ ofNat 5 v = next at hread hsplit hlen'
  by_cases h8 : 8 ≤ s.bits + 5
  · -- the first eight pending bits become a byte
    have hdrop : (next.drop 8).length = s.bits + 5 - 8 := by rw [List.length_drop, hlen']
    have hbyte := hread.ofNat_byte (by omega) (by omega)
    rw [hlen', show mask 8 = 0xff from rfl] at hbyte
    rw [if_pos h8]
    refine ⟨next.drop 8, ?_, hdrop, by dsimp only; omega, hread.drop 8⟩
    rw [hsplit, ofBytes_append, ofBytes_cons, ofBytes_nil, List.append_nil, hbyte,
      List.append_assoc, List.take_append_drop]
  · rw [if_neg h8]
    exact ⟨next, hsplit, hlen', by dsimp only; omega, hread⟩

/-- The whole loop over characters of the alphabet. -/
lemma foldlM_decodeStep {values : List ℕ} (hvalues : ∀ v ∈ values, v < 32) {s : DecodeState}
    {pending : List Bool} {done : List ℕ} (h : Decoding s pending done) :
    ∃ s' pending', (values.map symbol).foldlM decodeStep s = .ok s' ∧
      Decoding s' pending' (done ++ values) := by
  induction values generalizing s pending done with
  | nil => exact ⟨s, pending, rfl, by rwa [List.append_nil]⟩
  | cons v values ih =>
    have hv : v < 32 := hvalues v (by simp)
    obtain ⟨next, hnext⟩ := h.shiftIn hv
    obtain ⟨s', pending', hrun, hs'⟩ := ih (fun w hw => hvalues w (by simp [hw])) hnext
    refine ⟨s', pending', ?_, by rwa [List.append_assoc] at hs'⟩
    rw [List.map_cons, List.foldlM_cons, decodeStep, (idxOf_symbol hv).1]
    exact hrun

/-- **What the decoder returns**: the whole bytes of the symbols of the text. -/
theorem base32Decode_map_symbol {values : List ℕ} (hvalues : ∀ v ∈ values, v < 32) :
    base32Decode (values.map symbol) = .ok (BaseEncoding.octets 5 values) := by
  have hinit : Decoding ⟨[], 0, 0⟩ [] [] := ⟨rfl, rfl, by decide, Holds.nil 0⟩
  obtain ⟨s', pending, hrun, h⟩ := foldlM_decodeStep hvalues hinit
  have hlen := h.length
  have hlt := h.bits_lt
  rw [base32Decode, hrun, Outcome.ok_bind, BaseEncoding.octets, ← List.nil_append values, h.split,
    toBytes_ofBytes_append _ (by omega)]

/-- Any other character is an error. -/
lemma base32Decode_eq_error {text : Str} (h : ∃ ch ∈ text, ch ∉ kAlphabet) :
    ∃ message, base32Decode text = .error (.decode message) := by
  suffices hloop : ∀ s, ∃ message, text.foldlM decodeStep s = .error (.decode message) by
    obtain ⟨message, hrun⟩ := hloop ⟨[], 0, 0⟩
    exact ⟨message, by rw [base32Decode, hrun, Outcome.error_bind]⟩
  induction text with
  | nil => simp at h
  | cons c text ih =>
    intro s
    rw [List.foldlM_cons, decodeStep]
    cases hc : kAlphabet.idxOf? c with
    | none => exact ⟨_, rfl⟩
    | some idx =>
      refine ih ?_ _
      obtain ⟨ch, hch, hnot⟩ := h
      rcases List.mem_cons.mp hch with rfl | hch
      · rw [List.idxOf?_eq_none_iff.mpr hnot] at hc
        cases hc
      · exact ⟨ch, hch, hnot⟩

/-! ## Round trips -/

/-- The bits after the last whole byte of a text are fewer than a character's. -/
lemma leftover_lt_iff (n : ℕ) : 5 * n % 8 < 5 ↔ n % 8 ∈ [0, 2, 4, 5, 7] := by
  have h : ∀ m < 8, 5 * m % 8 < 5 ↔ m ∈ [0, 2, 4, 5, 7] := by decide
  rw [← h (n % 8) (Nat.mod_lt n (by norm_num)), Nat.mul_mod_mod]

/-- The texts that come back from their bytes. -/
lemma base32Encode_octets_iff {values : List ℕ} (hvalues : ∀ v ∈ values, v < 32) :
    base32Encode (BaseEncoding.octets 5 values) = values.map symbol ↔
      values.length % 8 ∈ [0, 2, 4, 5, 7] ∧
        ∀ v ∈ values.getLast?, v % 2 ^ (5 * values.length % 8) = 0 := by
  rw [← leftover_lt_iff, ← BaseEncoding.symbols_octets_iff (by norm_num) hvalues, base32Encode_eq,
    BaseEncoding.unpadded]
  constructor
  · exact map_symbol_injective (BaseEncoding.symbols_lt _) hvalues
  · intro h
    rw [h]

/-- **Base32**: the encoder writes the standard's text without padding, and the decoder reads it
back; the decoder rejects exactly the texts with a character outside the alphabet; and a text over
the alphabet comes back from its bytes exactly when its length modulo 8 is 0, 2, 4, 5 or 7 and the
unused low bits of its last character are zero. -/
theorem base32_correct (d : Bytes) (t : Str) :
    base32Encode d = BaseEncoding.unpadded 5 symbol d ∧
      base32Decode (base32Encode d) = .ok d ∧
      ((∃ message, base32Decode t = .error (.decode message)) ↔ ∃ ch ∈ t, ch ∉ kAlphabet) ∧
      ((∀ ch ∈ t, ch ∈ kAlphabet) → ∃ data, base32Decode t = .ok data ∧
        (base32Encode data = t ↔ t.length % 8 ∈ [0, 2, 4, 5, 7] ∧
          ∀ ch ∈ t.getLast?, kAlphabet.idxOf ch % 2 ^ (5 * t.length % 8) = 0)) := by
  refine ⟨base32Encode_eq d, ?_, ⟨?_, base32Decode_eq_error⟩, ?_⟩
  · rw [base32Encode_eq, BaseEncoding.unpadded,
      base32Decode_map_symbol (BaseEncoding.symbols_lt d),
      BaseEncoding.octets_symbols (by norm_num) (by norm_num)]
  · rintro ⟨message, herror⟩
    by_contra hall
    have halphabet : ∀ ch ∈ t, ch ∈ kAlphabet := by simpa using hall
    obtain ⟨values, rfl, hvalues⟩ := exists_map_symbol halphabet
    rw [base32Decode_map_symbol hvalues] at herror
    cases herror
  · intro hall
    obtain ⟨values, rfl, hvalues⟩ := exists_map_symbol hall
    refine ⟨_, base32Decode_map_symbol hvalues, ?_⟩
    rw [base32Encode_octets_iff hvalues, List.length_map, List.getLast?_map]
    refine and_congr_right fun _ => ?_
    cases hlast : values.getLast? with
    | none => simp
    | some v =>
      have hv : v < 32 := hvalues v (List.mem_of_getLast? hlast)
      simp [(idxOf_symbol hv).2]

/-- `MZXW6YQ` is the text of `foob`; `MZXW6YR`, with an unused bit set, is read as `foob`, too. -/
example : base32Encode (str "foob") = str "MZXW6YQ" ∧
    base32Decode (str "MZXW6YR") = .ok (str "foob") := by
  decide +kernel

end RaCommon.Base32
