import RaCommon.Encoding.Base58
import RaCommon.Runtime.Json

set_option relaxedAutoImplicit false
set_option autoImplicit false

/-!
# Multihashes (`crypto/multihash.hpp`)

A digest with the kind of the function it comes from. The constructor checks that the digest has
the length of its kind, so that a value of the class always does. There are four written forms:
the bytes (a code, the length, the digest), their hexadecimal and Base58 texts, and JSON.

## Main definitions

* `RaCommon.MultihashType`, `RaCommon.multihashCode`, `RaCommon.multihashLength` — the kinds.
* `RaCommon.Multihash`, `RaCommon.Multihash.new` — the class and its constructor.
* `RaCommon.Multihash.toBytes`, `RaCommon.Multihash.toHexString`, `RaCommon.Multihash.toBase58`,
  `RaCommon.Multihash.toJson` — the four forms, and their readers.

## Main results

* `RaCommon.Multihash.fromBytes_toBytes` and its siblings — each form is read back.
* `RaCommon.Multihash.equals_iff` — what `Equals` compares.
* `RaCommon.Multihash.fromBytes_eq_ok`, `RaCommon.Multihash.fromBase58_eq_ok`,
  `RaCommon.Multihash.fromHexString_eq_ok` — what is accepted.
* `RaCommon.Multihash.strict_iff` — when the readers are strict.
-/

namespace RaCommon

/-! ## Kinds -/

/-- `MultihashType`. -/
inductive MultihashType where
  | sha1
  | sha2_256
  | sha2_512
  | sha3
  | blake2b
  | blake2s
  deriving DecidableEq, Repr

/-- `ToString(MultihashType)`. -/
def MultihashType.toStr : MultihashType → Str
  | .sha1 => str "Sha1"
  | .sha2_256 => str "Sha2_256"
  | .sha2_512 => str "Sha2_512"
  | .sha3 => str "Sha3"
  | .blake2b => str "Blake2b"
  | .blake2s => str "Blake2s"

/-- `MultihashTypeFromString`. -/
def multihashTypeFromString (s : Str) : Outcome MultihashType :=
  if s = str "Sha1" then .ok .sha1
  else if s = str "Sha2_256" then .ok .sha2_256
  else if s = str "Sha2_512" then .ok .sha2_512
  else if s = str "Sha3" then .ok .sha3
  else if s = str "Blake2b" then .ok .blake2b
  else if s = str "Blake2s" then .ok .blake2s
  else .error (.invalid (str "unknown multihash type: " ++ s))

/-- `MultihashCode`. -/
def multihashCode : MultihashType → ℤ
  | .sha1 => 0x11
  | .sha2_256 => 0x12
  | .sha2_512 => 0x13
  | .sha3 => 0x14
  | .blake2b => 0x40
  | .blake2s => 0x41

/-- `MultihashLength`. -/
def multihashLength : MultihashType → ℕ
  | .sha1 => 20
  | .sha2_256 => 32
  | .sha2_512 => 64
  | .sha3 => 64
  | .blake2b => 64
  | .blake2s => 32

/-- `MultihashTypeFromCode`. The code of an unknown type is shown as the 32-bit number that it
is. -/
def multihashTypeFromCode (code : ℤ) : Outcome MultihashType :=
  match [MultihashType.sha1, .sha2_256, .sha2_512, .sha3, .blake2b, .blake2s].find?
    (multihashCode · = code) with
  | some t => .ok t
  | none => .error (.invalid (str "unknown multihash type: 0x" ++ hexText (code % 2 ^ 32).toNat))

/-- The name of a kind is read back. -/
@[simp] lemma multihashTypeFromString_toStr (t : MultihashType) :
    multihashTypeFromString t.toStr = .ok t := by
  cases t <;> simp [multihashTypeFromString, MultihashType.toStr]

/-- The codes are different. -/
@[simp] lemma multihashTypeFromCode_multihashCode (t : MultihashType) :
    multihashTypeFromCode (multihashCode t) = .ok t := by
  cases t <;> rfl

/-- A code fits a byte. -/
lemma toNat_ofInt_multihashCode (t : MultihashType) :
    ((UInt8.ofInt (multihashCode t)).toNat : ℤ) = multihashCode t := by
  cases t <;> rfl

/-- No digest is too long for the constructor, or for the length byte. -/
lemma multihashLength_le (t : MultihashType) : multihashLength t ≤ 127 := by
  cases t <;> decide

/-! ## The class -/

/-- `Multihash`. -/
structure Multihash where
  kind : MultihashType
  digest : Bytes
  /-- What the constructor checks. -/
  length_digest : digest.length = multihashLength kind
  deriving DecidableEq

namespace Multihash

/-- The constructor `Multihash(kind, digest)`. -/
def new (kind : MultihashType) (digest : Bytes) : Outcome Multihash :=
  if 127 < digest.length then
    .error (.invalid (str "unsupported hash size: " ++ toText digest.length))
  else if h : digest.length = multihashLength kind then .ok ⟨kind, digest, h⟩
  else
    .error (.invalid (str "incorrect hash length: " ++ toText digest.length ++ str " != " ++
      toText (multihashLength kind)))

/-- `ToBytes`. -/
def toBytes (m : Multihash) : Bytes :=
  UInt8.ofInt (multihashCode m.kind) :: UInt8.ofNat m.digest.length :: m.digest

/-- `FromBytes`. Bytes after the digest are ignored. -/
def fromBytes : Bytes → Outcome Multihash
  | code :: length :: rest => do
    let kind ← multihashTypeFromCode code.toNat
    if rest.length < length.toNat then .error (.invalid (str "multihash truncated"))
    else new kind (rest.take length.toNat)
  | _ => .error (.invalid (str "multihash too short"))

/-- `ToHexString`. -/
def toHexString (m : Multihash) : Str := m.toBytes.flatMap hexByte

/-- The loop of `FromHexString`, two characters at a time. A last single character is ignored, and
a pair is any text with a number, so that the cast to `uint8_t` may reduce it. -/
def readHex : Str → Outcome Bytes
  | a :: b :: text => do
    let x ← stoiHex [a, b]
    .ok (UInt8.ofInt x :: (← readHex text))
  | _ => .ok []

/-- `FromHexString`. -/
def fromHexString (text : Str) : Outcome Multihash := do fromBytes (← readHex text)

/-- `ToBase58`. -/
def toBase58 (m : Multihash) : Outcome Str := Base58.base58Encode m.toBytes

/-- `FromBase58`. -/
def fromBase58 (text : Str) : Outcome Multihash := do fromBytes (← Base58.base58Decode text)

/-- `Equals`. -/
def equals (m other : Multihash) : Bool := m.toHexString = other.toHexString

/-- `Multihash::ToJson`. -/
def toJson (m : Multihash) : Json :=
  .object <| Fields.of [(str "type", .string m.kind.toStr), (str "hash", .ofBytes m.digest)]

/-- `Multihash::FromJson`. -/
def fromJson (data : Json) : Outcome Multihash := do
  let kind ← multihashTypeFromString (← (← data.at (str "type")).getString)
  let digest ← (← data.at (str "hash")).getBytes
  new kind digest

/-! ## Reading what was written -/

/-- The constructor accepts a digest of the length of its kind. -/
lemma new_eq {kind : MultihashType} {digest : Bytes} (h : digest.length = multihashLength kind) :
    new kind digest = .ok ⟨kind, digest, h⟩ := by
  have hle := multihashLength_le kind
  rw [new, if_neg (by omega), dif_pos h]

/-- The bytes are read back, whatever bytes follow. -/
lemma fromBytes_toBytes_append (m : Multihash) (rest : Bytes) :
    fromBytes (m.toBytes ++ rest) = .ok m := by
  have hle := multihashLength_le m.kind
  have hlength : (UInt8.ofNat m.digest.length).toNat = m.digest.length := by
    rw [UInt8.toNat_ofNat', m.length_digest]
    exact Nat.mod_eq_of_lt (by omega)
  rw [toBytes, List.cons_append, List.cons_append, fromBytes, toNat_ofInt_multihashCode,
    multihashTypeFromCode_multihashCode, Outcome.ok_bind, hlength, List.length_append,
    if_neg (by omega), List.take_left, new_eq m.length_digest]

/-- **The bytes are read back.** -/
theorem fromBytes_toBytes (m : Multihash) : fromBytes m.toBytes = .ok m := by
  have h := fromBytes_toBytes_append m []
  rwa [List.append_nil] at h

/-- The pairs of digits are read back. -/
lemma readHex_flatMap_hexByte (data : Bytes) : readHex (data.flatMap hexByte) = .ok data := by
  induction data with
  | nil => rfl
  | cons b data ih =>
    have hpair : stoiHex [hexDigit (b >>> 4), hexDigit (b &&& 0xf)] = .ok (b.toNat : ℤ) :=
      stoiHex_hexByte b
    rw [List.flatMap_cons, hexByte, List.cons_append, List.cons_append, List.nil_append, readHex,
      hpair, Outcome.ok_bind, ih, Outcome.ok_bind, uint8_ofInt_toNat]

/-- **The hexadecimal text is read back.** -/
theorem fromHexString_toHexString (m : Multihash) : fromHexString m.toHexString = .ok m := by
  rw [fromHexString, toHexString, readHex_flatMap_hexByte, Outcome.ok_bind, fromBytes_toBytes]

/-- **The Base58 text is read back.** -/
theorem fromBase58_toBase58 (m : Multihash) : (m.toBase58 >>= fromBase58) = .ok m := by
  rw [toBase58, Base58.base58Encode_eq, Outcome.ok_bind, fromBase58, Base58.base58Decode_numeral,
    Outcome.ok_bind, fromBytes_toBytes]

/-- **The JSON form is read back.** -/
@[simp] theorem fromJson_toJson (m : Multihash) : fromJson m.toJson = .ok m := by
  simp [fromJson, toJson, new_eq m.length_digest]

/-- **`Equals` compares kind and digest**: the text has all of both. -/
theorem equals_iff (m other : Multihash) :
    m.equals other = true ↔ m.kind = other.kind ∧ m.digest = other.digest := by
  rw [equals, decide_eq_true_eq]
  constructor
  · intro htext
    have h := fromHexString_toHexString m
    rw [htext, fromHexString_toHexString, Except.ok.injEq] at h
    rw [h]
    exact ⟨rfl, rfl⟩
  · rintro ⟨hkind, hdigest⟩
    rw [toHexString, toBytes, hkind, hdigest]
    rfl

/-- **The four forms of a multihash.** A digest of the length of its kind makes a multihash with
this kind and digest, which its bytes, its hexadecimal and Base58 texts and its JSON form all
restore; and two multihashes are equal for `Equals` exactly when kind and digest are. -/
theorem forms_read_back :
    (∀ (kind : MultihashType) (digest : Bytes), digest.length = multihashLength kind →
      ∃ m, new kind digest = .ok m ∧ m.kind = kind ∧ m.digest = digest ∧
        fromBytes m.toBytes = .ok m ∧ fromHexString m.toHexString = .ok m ∧
        (∃ text, m.toBase58 = .ok text ∧ fromBase58 text = .ok m) ∧
        fromJson m.toJson = .ok m) ∧
    ∀ m other : Multihash,
      m.equals other = true ↔ m.kind = other.kind ∧ m.digest = other.digest := by
  refine ⟨fun kind digest h => ?_, equals_iff⟩
  refine ⟨⟨kind, digest, h⟩, new_eq h, rfl, rfl, fromBytes_toBytes _, fromHexString_toHexString _,
    ?_, fromJson_toJson _⟩
  exact Outcome.bind_eq_ok.mp (fromBase58_toBase58 _)

/-- `forms_read_back` for the SHA-1 digest of zeros. -/
theorem forms_read_back_zeros :
    ∃ m, new .sha1 (List.replicate 20 0) = .ok m ∧ m.kind = .sha1 ∧
      fromHexString m.toHexString = .ok m := by
  obtain ⟨m, hnew, hkind, -, -, hhex, -⟩ := forms_read_back.1 .sha1 (List.replicate 20 0) rfl
  exact ⟨m, hnew, hkind, hhex⟩

/-! ## What is accepted -/

/-- What the constructor constructs. -/
lemma new_eq_ok {kind : MultihashType} {digest : Bytes} {m : Multihash}
    (h : new kind digest = .ok m) : m.kind = kind ∧ m.digest = digest := by
  unfold new at h
  split at h
  · cases h
  · split at h
    · cases h
      exact ⟨rfl, rfl⟩
    · cases h

/-- The code of a kind that was found. -/
lemma multihashTypeFromCode_eq_ok {code : ℤ} {kind : MultihashType}
    (h : multihashTypeFromCode code = .ok kind) : multihashCode kind = code := by
  unfold multihashTypeFromCode at h
  split at h
  · next t ht =>
    cases h
    simpa using List.find?_some ht
  · cases h

/-- **What `FromBytes` accepts**: the bytes of a multihash, whatever bytes follow. -/
theorem fromBytes_eq_ok {b : Bytes} {m : Multihash} :
    fromBytes b = .ok m ↔ ∃ rest, b = m.toBytes ++ rest := by
  constructor
  · intro h
    match b with
    | code :: length :: rest =>
      obtain ⟨kind, hkind, h⟩ := Outcome.bind_eq_ok.mp h
      by_cases hshort : rest.length < length.toNat
      · rw [if_pos hshort] at h
        cases h
      · rw [if_neg hshort] at h
        obtain ⟨hm, hdigest⟩ := new_eq_ok h
        refine ⟨rest.drop length.toNat, ?_⟩
        have hlen : (rest.take length.toNat).length = length.toNat := by
          rw [List.length_take]
          omega
        rw [toBytes, hm, hdigest, hlen, multihashTypeFromCode_eq_ok hkind, uint8_ofInt_toNat,
          UInt8.ofNat_toNat, List.cons_append, List.cons_append, List.take_append_drop]
  · rintro ⟨rest, rfl⟩
    exact fromBytes_toBytes_append m rest

/-- How `FromHexString` reads a text: pairs of characters as `std::stoi` reads them, reduced to a
byte, and a last single character not at all. -/
inductive PairsRead : Str → Bytes → Prop
  | nil : PairsRead [] []
  | single (c : UInt8) : PairsRead [c] []
  | pair {a b : UInt8} {x : ℤ} {text : Str} {bytes : Bytes} (hpair : pairValue a b = some x)
    (htext : PairsRead text bytes) : PairsRead (a :: b :: text) (UInt8.ofInt x :: bytes)

/-- The loop of `FromHexString`. -/
lemma readHex_eq_ok {text : Str} {bytes : Bytes} :
    readHex text = .ok bytes ↔ PairsRead text bytes := by
  constructor
  · intro h
    fun_induction readHex text generalizing bytes with
    | case1 a b text ih =>
      obtain ⟨x, hx, h⟩ := Outcome.bind_eq_ok.mp h
      obtain ⟨rest, hrest, heq⟩ := Outcome.bind_eq_ok.mp h
      cases heq
      exact .pair (stoiHex_pair.mp hx) (ih hrest)
    | case2 text hshort =>
      cases h
      rcases text with _ | ⟨a, _ | ⟨b, text⟩⟩
      · exact .nil
      · exact .single a
      · exact absurd rfl (hshort a b text)
  · intro h
    induction h with
    | nil => rfl
    | single c => rfl
    | pair hpair _ ih => rw [readHex, stoiHex_pair.mpr hpair, Outcome.ok_bind, ih, Outcome.ok_bind]

/-- A text of pairs of hexadecimal digits. -/
def IsHexText (text : Str) : Prop := text.length % 2 = 0 ∧ ∀ c ∈ text, isHexDigit c = true

/-- Pairs of digits are the text of the bytes they are read as, in lower case. -/
lemma PairsRead.flatMap_hexByte {text : Str} {bytes : Bytes} (h : PairsRead text bytes)
    (hhex : IsHexText text) : bytes.flatMap hexByte = text.map lowerCase := by
  induction h with
  | nil => rfl
  | single c => exact absurd hhex.1 (by simp)
  | @pair a b x text bytes hpair _ ih =>
    have ha := hhex.2 a (by simp)
    have hb := hhex.2 b (by simp)
    have htext : IsHexText text := by
      refine ⟨?_, fun c hc => hhex.2 c (by simp [hc])⟩
      have hlen := hhex.1
      simp only [List.length_cons] at hlen
      omega
    rw [pairValue, if_pos ha, if_pos hb, Option.some.injEq] at hpair
    rw [← hpair, List.flatMap_cons, ih htext, hexByte_pair ha hb]
    rfl

/-- The hexadecimal text of bytes, in whatever case. -/
lemma isHexText_of_flatMap {text : Str} {bytes : Bytes}
    (h : bytes.flatMap hexByte = text.map lowerCase) : IsHexText text := by
  have hbyte : ∀ b : UInt8, (hexByte b).length = 2 ∧ ∀ c ∈ hexByte b, isHexDigit c = true := by
    intro b
    have hb := b.toNat_lt
    rw [hexByte_eq]
    refine ⟨rfl, fun c hc => ?_⟩
    rcases List.mem_pair.mp hc with rfl | rfl
    · exact (hexDigit_spec (by omega)).1
    · exact (hexDigit_spec (by omega)).1
  have hlength : ∀ bytes : Bytes, (bytes.flatMap hexByte).length = 2 * bytes.length := by
    intro bytes
    induction bytes with
    | nil => rfl
    | cons b bytes ih =>
      rw [List.flatMap_cons, List.length_append, ih, (hbyte b).1, List.length_cons]
      omega
  constructor
  · rw [← List.length_map (f := lowerCase), ← h, hlength]
    omega
  · intro c hc
    have hmem : lowerCase c ∈ bytes.flatMap hexByte := h ▸ List.mem_map_of_mem hc
    obtain ⟨b, -, hb⟩ := List.mem_flatMap.mp hmem
    rw [← (isHexDigit_spec c).1]
    exact (hbyte b).2 _ hb

/-- What `FromBase58` accepts: the text of the bytes of a multihash, whatever bytes follow. -/
theorem fromBase58_eq_ok {t : Str} {m : Multihash} :
    fromBase58 t = .ok m ↔ ∃ rest, t = Base58.numeral (m.toBytes ++ rest) := by
  constructor
  · intro h
    obtain ⟨data, hdata, hm⟩ := Outcome.bind_eq_ok.mp h
    obtain ⟨rest, rfl⟩ := fromBytes_eq_ok.mp hm
    have halphabet : ∀ c ∈ t, c ∈ Base58.kAlphabet := by
      by_contra hbad
      have hforeign : ∃ c ∈ t, c ∉ Base58.kAlphabet := by simpa using hbad
      obtain ⟨c, -, -, herror⟩ := Base58.base58Decode_of_not_mem hforeign
      rw [herror] at hdata
      cases hdata
    obtain ⟨data', hdata', ht⟩ := Base58.base58Decode_alphabet halphabet
    rw [hdata, Except.ok.injEq] at hdata'
    exact ⟨rest, by rw [hdata', ht]⟩
  · rintro ⟨rest, rfl⟩
    rw [fromBase58, Base58.base58Decode_numeral, Outcome.ok_bind]
    exact fromBytes_toBytes_append m rest

/-- What `FromHexString` accepts. -/
theorem fromHexString_eq_ok {t : Str} {m : Multihash} :
    fromHexString t = .ok m ↔ ∃ rest, PairsRead t (m.toBytes ++ rest) := by
  constructor
  · intro h
    obtain ⟨bytes, hbytes, hm⟩ := Outcome.bind_eq_ok.mp h
    obtain ⟨rest, rfl⟩ := fromBytes_eq_ok.mp hm
    exact ⟨rest, readHex_eq_ok.mp hbytes⟩
  · rintro ⟨rest, hread⟩
    rw [fromHexString, readHex_eq_ok.mpr hread, Outcome.ok_bind]
    exact fromBytes_toBytes_append m rest

/-- Different byte sequences have different Base58 texts. -/
lemma numeral_inj {data data' : Bytes} : Base58.numeral data = Base58.numeral data' ↔
    data = data' := by
  constructor
  · intro h
    have hdata := Base58.base58Decode_numeral data
    rw [h, Base58.base58Decode_numeral, Except.ok.injEq] at hdata
    exact hdata.symm
  · intro h
    rw [h]

/-- A text is written again, in lower case, exactly when it is a text of digits with nothing behind
the multihash. -/
lemma toHexString_eq_iff {t : Str} {m : Multihash} {rest : Bytes}
    (h : PairsRead t (m.toBytes ++ rest)) :
    m.toHexString = t.map lowerCase ↔ rest = [] ∧ IsHexText t := by
  constructor
  · intro heq
    have hhex : IsHexText t := isHexText_of_flatMap heq
    have hall := h.flatMap_hexByte hhex
    rw [List.flatMap_append, ← heq, toHexString, List.append_right_eq_self] at hall
    refine ⟨?_, hhex⟩
    cases rest with
    | nil => rfl
    | cons b rest => exact absurd hall (by simp [hexByte])
  · rintro ⟨rfl, hhex⟩
    rw [List.append_nil] at h
    exact h.flatMap_hexByte hhex

/-- **When the decoders are strict.** What `FromBytes` reads is written as the same bytes unless
more bytes follow the multihash; what `FromBase58` reads is written as the same text unless the text
is that of such bytes; what `FromHexString` reads is written as the same text in lower case unless
more pairs follow the multihash, or a single character, or some character is no hexadecimal
digit. -/
theorem strict_iff (b : Bytes) (t : Str) :
    ((∀ m, fromBytes b = .ok m → m.toBytes = b) ↔
      ¬∃ (m : Multihash) (rest : Bytes), rest ≠ [] ∧ b = m.toBytes ++ rest) ∧
    ((∀ m, fromBase58 t = .ok m → m.toBase58 = .ok t) ↔
      ¬∃ (m : Multihash) (rest : Bytes), rest ≠ [] ∧ t = Base58.numeral (m.toBytes ++ rest)) ∧
    ((∀ m, fromHexString t = .ok m → m.toHexString = t.map lowerCase) ↔
      ¬∃ (m : Multihash) (rest : Bytes),
        PairsRead t (m.toBytes ++ rest) ∧ (rest ≠ [] ∨ ¬IsHexText t)) := by
  refine ⟨?_, ?_, ?_⟩
  · simp only [fromBytes_eq_ok]
    constructor
    · rintro h ⟨m, rest, hne, rfl⟩
      exact hne (List.self_eq_append_right.mp (h m ⟨rest, rfl⟩))
    · rintro h m ⟨rest, rfl⟩
      by_contra hne
      exact h ⟨m, rest, fun hnil => hne (by rw [hnil, List.append_nil]), rfl⟩
  · simp only [fromBase58_eq_ok, toBase58, Base58.base58Encode_eq, Except.ok.injEq]
    constructor
    · rintro h ⟨m, rest, hne, rfl⟩
      exact hne (List.self_eq_append_right.mp (numeral_inj.mp (h m ⟨rest, rfl⟩)))
    · rintro h m ⟨rest, rfl⟩
      by_contra hne
      exact h ⟨m, rest, fun hnil => hne (by rw [hnil, List.append_nil]), rfl⟩
  · simp only [fromHexString_eq_ok]
    constructor
    · rintro h ⟨m, rest, hread, hbad⟩
      obtain ⟨hnil, hhex⟩ := (toHexString_eq_iff hread).mp (h m ⟨rest, hread⟩)
      exact hbad.elim (absurd hnil) (absurd hhex)
    · rintro h m ⟨rest, hread⟩
      rw [toHexString_eq_iff hread]
      by_contra hnot
      exact h ⟨m, rest, hread, not_and_or.mp hnot⟩

/-- The multihash of the SHA-1 digest of zeros. -/
def zeros : Multihash := ⟨.sha1, List.replicate 20 0, rfl⟩

/-- A byte behind the digest, in bytes and in Base58; and a digit behind a sign. All three are read
as `zeros`. -/
theorem lenient_zeros :
    (fromBytes (zeros.toBytes ++ [0]) = .ok zeros ∧ zeros.toBytes ≠ zeros.toBytes ++ [0]) ∧
      (fromBase58 (Base58.numeral (zeros.toBytes ++ [0])) = .ok zeros ∧
        zeros.toBase58 ≠ .ok (Base58.numeral (zeros.toBytes ++ [0]))) ∧
      (fromHexString (str "1114+0" ++ List.replicate 38 48) = .ok zeros ∧
        zeros.toHexString ≠ (str "1114+0" ++ List.replicate 38 48).map lowerCase) := by
  refine ⟨⟨fromBytes_toBytes_append zeros [0], by decide⟩, ⟨fromBase58_eq_ok.mpr ⟨[0], rfl⟩, ?_⟩,
    by decide +kernel, by decide +kernel⟩
  rw [toBase58, Base58.base58Encode_eq, ne_eq, Except.ok.injEq, numeral_inj]
  decide

end Multihash

end RaCommon
