import RaCommon.Crypto.HashAlgorithm
import RaCommon.Crypto.Pbkdf2
import RaCommon.Encoding.Base64
import RaCommon.Runtime.Text

set_option relaxedAutoImplicit false
set_option autoImplicit false

/-!
# Salted hashes and password hashes (`crypto/hash_util.hpp`)

A hash is stored as `base64(digest)_base64(salt)`, a password hash as
`iterations_base64(salt)_base64(key)`. Verifying splits the text, decodes its fields and computes
the digest or the key again. The random salt is an argument of the functions that draw one.

## Main definitions

* `RaCommon.HashUtil.generateHash`, `RaCommon.HashUtil.verifyHash` — salted hashes.
* `RaCommon.HashUtil.generateFingerprint` — the digest in groups of hexadecimal digits.
* `RaCommon.HashUtil.toHex`, `RaCommon.HashUtil.fromHex` — those groups, and reading them.
* `RaCommon.HashUtil.generatePasswordHashWithSalt`, `RaCommon.HashUtil.verifyPasswordHash` —
  password hashes.
* `RaCommon.HashUtil.readPasswordHash` — what the verifier makes of a stored password hash.
* `RaCommon.HashUtil.StrictPasswordHash` — the stored form as it is meant to be.

## Main results

* `RaCommon.HashUtil.verifyPasswordHash_eq` — verifying is reading and comparing the key.
* `RaCommon.HashUtil.verify_strict_iff` — when the verifier accepts the strict form only.
* `RaCommon.HashUtil.verifiesStrictly_of_not_malformed` — it does so for a text that is not
  malformed.
* `RaCommon.HashUtil.generate_verify` — what is generated verifies, and what else verifies.
* `RaCommon.HashUtil.toHex_round_trip` — fingerprints are read back.
-/

namespace RaCommon.HashUtil

open Base64 Pbkdf2

/-! ## The functions -/

/-- `kPbkdf2Iterations`. -/
def kPbkdf2Iterations : ℤ := 1000

/-- `kPbkdf2KeyLen`. -/
def kPbkdf2KeyLen : ℕ := 64

/-- `kSaltLen`. -/
def kSaltLen : ℕ := 16

/-- What `Salt` can return: `kSaltLen` random bytes. -/
abbrev Salt := {salt : Bytes // salt.length = kSaltLen}

/-- `Salt`, with what `getentropy` gives, if it does not fail. -/
def drawSalt : Option Salt → Outcome Salt
  | some salt => .ok salt
  | none => .error (.crypto (str "getentropy failed"))

/-- `Digest`. -/
def digest (data : Bytes) : HashAlgorithm → Outcome Bytes
  | .sha1 => Sha.sha1 data
  | .sha256 => Sha.sha256 data
  | .sha512 => Sha.sha512 data
  | .pbkdf2HmacSha1 => .error (.crypto (str "PBKDF2 is not a plain digest"))

/-- `ToHex`: upper-case digits in groups of four characters, with `':'` between them. -/
def toHex (data : Bytes) : Str :=
  let kHex := str "0123456789ABCDEF"
  let hex := data.flatMap fun (b : UInt8) =>
    [kHex.getD (b >>> 4).toNat 0, kHex.getD (b &&& 0xf).toNat 0]
  (List.range ((hex.length + 3) / 4)).flatMap fun i =>
    (if i = 0 then [] else str ":") ++ (hex.drop (4 * i)).take 4

/-- `FromHex`. The cast of the `int` that `std::stoi` returns keeps its low eight bits. -/
def fromHex (text : Str) : Outcome Bytes :=
  let text := text.filter (· ≠ 58)
  (List.range (text.length / 2)).mapM fun i => do
    .ok (UInt8.ofInt (← stoiHex ((text.drop (i * 2)).take 2)))

/-- `GenerateFingerprint`. -/
def generateFingerprint (data : Bytes) (algorithm : HashAlgorithm) : Outcome Str := do
  .ok (toHex (← digest data algorithm))

/-- `Concat`. -/
def concat (a b : Bytes) : Bytes := a ++ b

/-- `ConstantTimeEquals`. -/
def constantTimeEquals (a b : Bytes) : Bool :=
  if a.length ≠ b.length then false
  else (List.zip a b).foldl (fun diff p => diff ||| (p.1 ^^^ p.2)) 0 = 0

/-- The separator `'_'`. -/
def separator : UInt8 := 95

/-- `GeneratePasswordHashWithSalt`. -/
def generatePasswordHashWithSalt (password : Str) (salt : Bytes) : Outcome Str := do
  let derived ← pbkdf2HmacSha1 password salt kPbkdf2Iterations kPbkdf2KeyLen
  .ok (toText kPbkdf2Iterations ++ str "_" ++ base64Encode salt ++ str "_" ++ base64Encode derived)

/-- `GeneratePasswordHash`, with the salt it draws. -/
def generatePasswordHash (salt : Salt) (password : Str) : Outcome Str :=
  generatePasswordHashWithSalt password salt

/-- `VerifyPasswordHash`. Both of its `catch (...)` return `false`. -/
def verifyPasswordHash (password hashToVerify : Str) : Outcome Bool :=
  match splitOn hashToVerify separator with
  | [part0, part1, part2] =>
    match stoi part0 with
    | .error _ => .ok false
    | .ok (iterations, consumed) =>
      if consumed ≠ part0.length then .ok false
      else
        match base64Decode part1, base64Decode part2 with
        | .ok salt, .ok expected => do
          let actual ← pbkdf2HmacSha1 password salt iterations expected.length
          .ok (constantTimeEquals actual expected)
        | _, _ => .ok false
  | _ => .ok false

/-- `GenerateHash`, with the salt it draws. -/
def generateHash (salt : Salt) (content : Bytes) (algorithm : HashAlgorithm) : Outcome Str :=
  if algorithm = .pbkdf2HmacSha1 then generatePasswordHash salt content
  else do
    let h ← digest (concat salt content) algorithm
    .ok (base64Encode h ++ str "_" ++ base64Encode salt)

/-- `VerifyHash`. -/
def verifyHash (content : Bytes) (hashToVerify : Str) (algorithm : HashAlgorithm) :
    Outcome Bool :=
  if algorithm = .pbkdf2HmacSha1 then verifyPasswordHash content hashToVerify
  else
    match splitOn hashToVerify separator with
    | [part0, part1] => do
      let expected ← base64Decode part0
      let salt ← base64Decode part1
      .ok (constantTimeEquals (← digest (concat salt content) algorithm) expected)
    | _ => .error (.invalid (str "malformed hash"))

/-! ## Comparing and splitting -/

/-- The accumulated difference is zero when every byte's is. -/
lemma foldl_diff {l : List (UInt8 × UInt8)} (d : UInt8) :
    l.foldl (fun diff p => diff ||| (p.1 ^^^ p.2)) d = 0 ↔ d = 0 ∧ ∀ p ∈ l, p.1 = p.2 := by
  induction l generalizing d with
  | nil => simp
  | cons p l ih =>
    rw [List.foldl_cons, ih, UInt8.or_eq_zero_iff]
    simp [and_assoc]

/-- **The comparison is equality.** -/
theorem constantTimeEquals_iff (a b : Bytes) : constantTimeEquals a b = true ↔ a = b := by
  unfold constantTimeEquals
  by_cases hlen : a.length = b.length
  · rw [if_neg (not_not.mpr hlen), decide_eq_true_iff, foldl_diff]
    constructor
    · rintro ⟨-, h⟩
      apply List.ext_getElem hlen
      intro i ha hb
      have hzip : i < (a.zip b).length := by
        rw [List.length_zip]
        omega
      have hi := h _ (List.getElem_mem hzip)
      rwa [List.getElem_zip] at hi
    · rintro rfl
      refine ⟨rfl, fun p hp => ?_⟩
      obtain ⟨i, hi, rfl⟩ := List.getElem_of_mem hp
      rw [List.getElem_zip]
  · rw [if_pos hlen]
    exact iff_of_false (by simp) fun h => hlen (congrArg List.length h)

/-- Base64 text has no separator. -/
lemma separator_not_mem_base64 (data : Bytes) : separator ∉ base64Encode data := by
  intro h
  rcases mem_base64Encode h with ⟨v, hv, heq⟩ | heq
  · have hall : ∀ j : Fin 64, separator ≠ symbol j := by decide +kernel
    exact hall ⟨v, hv⟩ heq
  · exact absurd heq (by decide)

/-- Base64 text of some bytes is not empty. -/
lemma base64Encode_ne_nil {data : Bytes} (h : data ≠ []) : base64Encode data ≠ [] := by
  intro hnil
  have hback := base64Decode_base64Encode data
  rw [hnil] at hback
  exact h (Except.ok.inj hback).symm

/-- Decimal text has no separator. -/
lemma separator_not_mem_decimal {s : Str} {x : ℤ} (h : Decimal s x) : separator ∉ s :=
  h.not_mem rfl (by decide) (by decide)

/-! ## Password hashes -/

/-- What the verifier makes of a stored password hash: iteration count, salt and key. -/
structure StoredPassword where
  iterations : ℤ
  salt : Bytes
  key : Bytes

/-- The reading of a stored password hash: three parts, the first read by `stoi` in its entirety,
the others by the decoder. -/
def readPasswordHash (h : Str) : Option StoredPassword :=
  match splitOn h separator with
  | [part0, part1, part2] =>
    match stoi part0, base64Decode part1, base64Decode part2 with
    | .ok (iterations, consumed), .ok salt, .ok key =>
      if consumed = part0.length then some ⟨iterations, salt, key⟩ else none
    | _, _, _ => none
  | _ => none

/-- The key that a password gives: an iteration count below one acts as one. -/
def StoredPassword.derive (s : StoredPassword) (password : Str) : Bytes :=
  derived password s.salt (max s.iterations 1).toNat s.key.length

/-- **Verifying is reading and comparing the key**; no call throws. -/
theorem verifyPasswordHash_eq (password h : Str) :
    verifyPasswordHash password h =
      .ok (match readPasswordHash h with
        | none => false
        | some s => decide (s.derive password = s.key)) := by
  have hcompare : ∀ iterations (salt key : Bytes),
      (do
        let actual ← pbkdf2HmacSha1 password salt iterations key.length
        .ok (constantTimeEquals actual key) : Outcome Bool) =
        .ok (decide ((⟨iterations, salt, key⟩ : StoredPassword).derive password = key)) := by
    intro iterations salt key
    rw [pbkdf2HmacSha1_eq, Outcome.ok_bind, Except.ok.injEq, Bool.eq_iff_iff,
      constantTimeEquals_iff, decide_eq_true_iff]
    rfl
  unfold verifyPasswordHash readPasswordHash
  split
  · next part0 part1 part2 hparts =>
    cases hs : stoi part0 with
    | error e => rfl
    | ok r =>
      obtain ⟨iterations, consumed⟩ := r
      cases h1 : base64Decode part1 with
      | error e => simp
      | ok salt =>
        cases h2 : base64Decode part2 with
        | error e => simp
        | ok key =>
          by_cases hc : consumed = part0.length
          · simp only [hc, ne_eq, not_true_eq_false, if_false, if_true, hcompare]
          · simp [hc]
  · rfl

/-- **The stored form as it is meant to be**: exactly three fields, a decimal integer not below
one, the base64 of some salt and the base64 of a key that is not empty. -/
structure StrictPasswordHash (h : Str) (s : StoredPassword) : Prop where
  iterations_pos : 1 ≤ s.iterations
  key_ne_nil : s.key ≠ []
  form : ∃ field, Decimal field s.iterations ∧
    h = field ++ separator :: (reference s.salt ++ separator :: reference s.key)

/-- The parts of the strict form. -/
lemma StrictPasswordHash.splitOn_eq {h : Str} {s : StoredPassword}
    (hs : StrictPasswordHash h s) : ∃ field, Decimal field s.iterations ∧
      splitOn h separator = [field, base64Encode s.salt, base64Encode s.key] := by
  obtain ⟨field, hdec, rfl⟩ := hs.form
  refine ⟨field, hdec, ?_⟩
  rw [← base64Encode_eq, ← base64Encode_eq, splitOn_cons (separator_not_mem_decimal hdec),
    splitOn_cons (separator_not_mem_base64 _),
    splitOn_last (separator_not_mem_base64 _) (base64Encode_ne_nil hs.key_ne_nil)]

/-- The reader finds in the strict form what it was made of. -/
lemma StrictPasswordHash.eq_of_read {h : Str} {s t : StoredPassword}
    (hs : StrictPasswordHash h s) (ht : readPasswordHash h = some t) : t = s := by
  obtain ⟨field, hdec, hsplit⟩ := hs.splitOn_eq
  rw [readPasswordHash, hsplit] at ht
  simp only [base64Decode_base64Encode] at ht
  cases hstoi : stoi field with
  | error e => simp [hstoi] at ht
  | ok r =>
    obtain ⟨x, consumed⟩ := r
    have hx := eq_of_stoi hdec hstoi
    simp only [hstoi] at ht
    by_cases hc : consumed = field.length
    · rw [if_pos hc, Option.some.injEq] at ht
      rw [← ht, hx]
    · rw [if_neg hc] at ht
      cases ht

/-- The reader reads the strict form, when the iteration count is an `int`. -/
lemma StrictPasswordHash.read {h : Str} {s : StoredPassword} (hs : StrictPasswordHash h s)
    (hint : s.iterations < 2 ^ 31) : readPasswordHash h = some s := by
  obtain ⟨field, hdec, hsplit⟩ := hs.splitOn_eq
  have hpos := hs.iterations_pos
  rw [readPasswordHash, hsplit]
  simp only [base64Decode_base64Encode, stoi_of_decimal hdec ⟨by omega, hint⟩, if_true]

/-- What is to hold of a verification: it returns, and it returns `true` only for the strict form
with the key of the password. -/
def VerifiesStrictly (password h : Str) : Prop :=
  ∃ result, verifyPasswordHash password h = .ok result ∧
    (result = true → ∃ s, StrictPasswordHash h s ∧
      derived password s.salt s.iterations.toNat s.key.length = s.key)

/-- **The ways in which a text that is read is not the strict form**: an iteration count below
one, an empty key, white space before the count, a separator after the key, or fields that are not
the base64 of what they decode to. -/
def Malformed (h : Str) (s : StoredPassword) : Prop :=
  s.iterations < 1 ∨ s.key = [] ∨ h.getLast? = some separator ∨
    ∃ part0 part1 part2, splitOn h separator = [part0, part1, part2] ∧
      (part0.takeWhile isSpace ≠ [] ∨ part1 ≠ reference s.salt ∨ part2 ≠ reference s.key)

/-- What was read of the parts of a text. -/
lemma parts_of_read {h : Str} {s : StoredPassword} (hs : readPasswordHash h = some s) :
    ∃ part0 part1 part2, splitOn h separator = [part0, part1, part2] ∧
      stoi part0 = .ok (s.iterations, part0.length) ∧ base64Decode part1 = .ok s.salt ∧
      base64Decode part2 = .ok s.key := by
  unfold readPasswordHash at hs
  split at hs
  · next part0 part1 part2 hparts =>
    split at hs
    · next iterations consumed salt key h0 h1 h2 =>
      by_cases hc : consumed = part0.length
      · rw [if_pos hc, Option.some.injEq] at hs
        rw [hc] at h0
        rw [← hs]
        exact ⟨part0, part1, part2, hparts, h0, h1, h2⟩
      · rw [if_neg hc] at hs
        cases hs
    · cases hs
  · cases hs

/-- **A text that is read is the strict form, or malformed in one of those ways.** -/
theorem strict_iff_not_malformed {h : Str} {s : StoredPassword}
    (hs : readPasswordHash h = some s) : StrictPasswordHash h s ↔ ¬ Malformed h s := by
  obtain ⟨part0, part1, part2, hparts, h0, -, -⟩ := parts_of_read hs
  constructor
  · intro hstrict hmal
    obtain ⟨field, hdec, hsplit⟩ := hstrict.splitOn_eq
    rcases hmal with hlt | hkey | hlast | ⟨q0, q1, q2, hq, hbad⟩
    · exact absurd hstrict.iterations_pos (by omega)
    · exact hstrict.key_ne_nil hkey
    · -- the last character is one of the key's base64 text
      obtain ⟨f, -, hform⟩ := hstrict.form
      have hne := base64Encode_ne_nil hstrict.key_ne_nil
      obtain ⟨c, hc⟩ := List.getLast?_isSome.mpr hne |> Option.isSome_iff_exists.mp
      rw [hform, ← base64Encode_eq s.key, List.getLast?_append,
        List.getLast?_cons_of_ne_nil (by simp), List.getLast?_append,
        List.getLast?_cons_of_ne_nil hne, hc] at hlast
      have hsep : c = separator := by simpa using hlast
      exact separator_not_mem_base64 _ (hsep ▸ List.mem_of_getLast? hc)
    · rw [hsplit] at hq
      simp only [List.cons.injEq, and_true] at hq
      obtain ⟨rfl, rfl, rfl⟩ := hq
      rcases hbad with hspace | hsalt | hkey
      · exact hspace (by simpa using (hdec.takeWhile_isSpace []).1)
      · exact hsalt (base64Encode_eq _)
      · exact hkey (base64Encode_eq _)
  · intro hmal
    simp only [Malformed, not_or, not_exists, not_and, not_not] at hmal
    obtain ⟨hpos, hkey, hlast, hfields⟩ := hmal
    obtain ⟨hspace, hsalt, hkeyText⟩ := hfields part0 part1 part2 hparts
    obtain ⟨blank, number, hpart0, hblank, hdec⟩ := decimal_of_stoi h0
    have hnumber : part0 = number := by
      rw [hpart0, List.takeWhile_append_of_pos hblank, List.append_eq_nil_iff] at hspace
      rw [hpart0, hspace.1, List.nil_append]
    refine ⟨by omega, hkey, part0, hnumber ▸ hdec, ?_⟩
    have hjoin := intercalate_splitOn hlast
    rw [hparts, hsalt, hkeyText] at hjoin
    rw [← hjoin]
    simp

/-- A text that holds the key it derives only if it is not malformed is accepted in the strict form
only. -/
lemma verifiesStrictly_of_key {password h : Str}
    (hmal : ∀ s, readPasswordHash h = some s → s.derive password = s.key → ¬ Malformed h s) :
    VerifiesStrictly password h := by
  unfold VerifiesStrictly
  rw [verifyPasswordHash_eq]
  cases hread : readPasswordHash h with
  | none => exact ⟨false, rfl, fun hresult => by cases hresult⟩
  | some s =>
    refine ⟨_, rfl, fun hresult => ?_⟩
    have hkey := of_decide_eq_true hresult
    have hstrict := (strict_iff_not_malformed hread).mpr (hmal s hread hkey)
    refine ⟨s, hstrict, ?_⟩
    have hmax : max s.iterations 1 = s.iterations := max_eq_left hstrict.iterations_pos
    rwa [StoredPassword.derive, hmax] at hkey

/-- **Which texts are accepted in the strict form only**, whatever the password: those that are not
read at all, and those that are not malformed. -/
theorem verifiesStrictly_of_not_malformed {h : Str}
    (hmal : ∀ s, readPasswordHash h = some s → ¬ Malformed h s) (password : Str) :
    VerifiesStrictly password h :=
  verifiesStrictly_of_key fun s hread _ => hmal s hread

/-- **When the verifier accepts the strict form only**: when the text is not read at all, holds
another key than it derives, or is not malformed.

**Proof sketch.** The call returns the comparison of the keys (`verifyPasswordHash_eq`). If it is
`true`, the text must be the strict form of something, which is then what was read
(`StrictPasswordHash.eq_of_read`), and so not malformed. -/
theorem verify_strict_iff (password h : Str) :
    VerifiesStrictly password h ↔
      ∀ s, readPasswordHash h = some s → s.derive password = s.key → ¬ Malformed h s := by
  refine ⟨?_, verifiesStrictly_of_key⟩
  rintro ⟨result, hresult, himp⟩ s hread hkey
  rw [verifyPasswordHash_eq, hread, Except.ok.injEq] at hresult
  obtain ⟨t, hstrict, -⟩ := himp (by rw [← hresult]; exact decide_eq_true hkey)
  rw [← strict_iff_not_malformed hread]
  rwa [hstrict.eq_of_read hread]

/-- The text `1__=` is no strict form and verifies for every password: its third field decodes to
an empty key, of which there is nothing to compare. -/
theorem empty_key_verifies :
    (∀ password, verifyPasswordHash password (str "1__=") = .ok true) ∧
      ¬ ∀ password h, VerifiesStrictly password h := by
  have hsplit : splitOn (str "1__=") separator = [str "1", [], str "="] := by
    change splitOn ([49] ++ separator :: ([] ++ separator :: [61])) separator = [[49], [], [61]]
    rw [splitOn_cons (by decide), splitOn_cons (by decide), splitOn_last (by decide) (by decide)]
  have hread : readPasswordHash (str "1__=") = some ⟨1, [], []⟩ := by
    rw [readPasswordHash, hsplit]
    rfl
  have hall : ∀ password, verifyPasswordHash password (str "1__=") = .ok true := by
    intro password
    have hempty : derived password [] 1 0 = [] :=
      List.eq_nil_of_length_eq_zero (length_derived _ _ _ _)
    rw [verifyPasswordHash_eq, hread]
    simp [StoredPassword.derive, hempty]
  refine ⟨hall, fun hstrict => ?_⟩
  obtain ⟨result, hresult, himp⟩ := hstrict [] (str "1__=")
  rw [hall, Except.ok.injEq] at hresult
  obtain ⟨s, hs, -⟩ := himp hresult.symm
  have heq := hs.eq_of_read hread
  exact hs.key_ne_nil (by rw [← heq])

/-! ## Generating and verifying -/

/-- What a hash stores of the content: the salted digest, or the derived key. -/
def salted (salt content : Bytes) (algorithm : HashAlgorithm) : Outcome Bytes :=
  if algorithm = .pbkdf2HmacSha1 then
    pbkdf2HmacSha1 content salt kPbkdf2Iterations kPbkdf2KeyLen
  else digest (salt ++ content) algorithm

/-- The plain digests return. -/
lemma digest_total {algorithm : HashAlgorithm} (h : algorithm ≠ .pbkdf2HmacSha1)
    (data : Bytes) : ∃ d, digest data algorithm = .ok d := by
  cases algorithm with
  | sha1 =>
    obtain ⟨d, hd, -⟩ := Sha.sha1_total data
    exact ⟨d, hd⟩
  | sha256 =>
    obtain ⟨d, hd, -⟩ := Sha.sha256_total data
    exact ⟨d, hd⟩
  | sha512 =>
    obtain ⟨d, hd, -⟩ := Sha.sha512_total data
    exact ⟨d, hd⟩
  | pbkdf2HmacSha1 => exact absurd rfl h

/-- **A generated password hash is read back**, for every salt: it has the strict form. -/
theorem generatePasswordHashWithSalt_read (password : Str) (salt : Bytes) :
    ∃ h, generatePasswordHashWithSalt password salt = .ok h ∧
      readPasswordHash h =
        some ⟨kPbkdf2Iterations, salt, derived password salt 1000 kPbkdf2KeyLen⟩ := by
  have hkey : pbkdf2HmacSha1 password salt kPbkdf2Iterations kPbkdf2KeyLen =
      .ok (derived password salt 1000 kPbkdf2KeyLen) := pbkdf2HmacSha1_eq _ _ _ _
  have hlen := length_derived password salt 1000 kPbkdf2KeyLen
  have hcount : 1 ≤ kPbkdf2Iterations ∧ kPbkdf2Iterations < 2 ^ 31 := by decide
  rw [generatePasswordHashWithSalt, hkey]
  refine ⟨_, rfl, StrictPasswordHash.read ⟨hcount.1, ?_, ?_⟩ hcount.2⟩
  · exact List.ne_nil_of_length_pos (by rw [hlen]; decide)
  · refine ⟨toText kPbkdf2Iterations, decimal_toText _, ?_⟩
    have hsep : str "_" = [separator] := by decide
    simp only [hsep, base64Encode_eq, List.append_assoc, List.cons_append, List.nil_append]

/-- **A password verifies against a hash exactly when it derives the same key**. -/
theorem verifyPasswordHash_generated (password : Str) (salt : Bytes) :
    ∃ h, generatePasswordHashWithSalt password salt = .ok h ∧ ∀ other,
      verifyPasswordHash other h = .ok (decide (derived other salt 1000 kPbkdf2KeyLen =
        derived password salt 1000 kPbkdf2KeyLen)) := by
  obtain ⟨h, hgen, hread⟩ := generatePasswordHashWithSalt_read password salt
  refine ⟨h, hgen, fun other => ?_⟩
  have hcount : (max kPbkdf2Iterations 1).toNat = 1000 := by decide
  rw [verifyPasswordHash_eq, hread]
  simp only [StoredPassword.derive, length_derived, hcount]

/-- **A content verifies against a hash exactly when it has the same salted digest**. -/
theorem verifyHash_generated {algorithm : HashAlgorithm} (halg : algorithm ≠ .pbkdf2HmacSha1)
    (salt : Salt) (content : Bytes) :
    ∃ h, generateHash salt content algorithm = .ok h ∧ ∀ other, ∃ b,
      verifyHash other h algorithm = .ok b ∧
        (b = true ↔ digest (concat salt other) algorithm =
          digest (concat salt content) algorithm) := by
  obtain ⟨d, hd⟩ := digest_total halg (concat salt content)
  have hsep : str "_" = [separator] := by decide
  have hsalt : salt.val ≠ [] := by
    apply List.ne_nil_of_length_pos
    rw [salt.property]
    decide
  have hsplit : splitOn (base64Encode d ++ str "_" ++ base64Encode salt) separator =
      [base64Encode d, base64Encode salt] := by
    rw [hsep, List.append_assoc, List.singleton_append,
      splitOn_cons (separator_not_mem_base64 d),
      splitOn_last (separator_not_mem_base64 _) (base64Encode_ne_nil hsalt)]
  rw [generateHash, if_neg halg, hd, Outcome.ok_bind]
  refine ⟨_, rfl, fun other => ?_⟩
  obtain ⟨e, he⟩ := digest_total halg (concat salt other)
  rw [verifyHash, if_neg halg, hsplit]
  simp only [base64Decode_base64Encode, Outcome.ok_bind, he]
  exact ⟨_, rfl, by rw [constantTimeEquals_iff, Except.ok.injEq]⟩

/-- A hash is generated, whatever the algorithm. -/
lemma generateHash_total (salt : Salt) (content : Bytes) (algorithm : HashAlgorithm) :
    ∃ h, generateHash salt content algorithm = .ok h := by
  by_cases halg : algorithm = .pbkdf2HmacSha1
  · obtain ⟨h, hgen, -⟩ := verifyPasswordHash_generated content salt
    refine ⟨h, ?_⟩
    rw [generateHash, if_pos halg]
    exact hgen
  · obtain ⟨h, hgen, -⟩ := verifyHash_generated halg salt content
    exact ⟨h, hgen⟩

/-- A generated hash verifies for its content, whatever the algorithm. -/
lemma verifyHash_generateHash {salt : Salt} {content : Bytes} {algorithm : HashAlgorithm}
    {h : Str} (hgen : generateHash salt content algorithm = .ok h) :
    verifyHash content h algorithm = .ok true := by
  by_cases halg : algorithm = .pbkdf2HmacSha1
  · subst halg
    obtain ⟨h', hgen', hverify⟩ := verifyPasswordHash_generated content salt
    obtain rfl : h' = h := Except.ok.inj (hgen'.symm.trans hgen)
    simp [verifyHash, hverify]
  · obtain ⟨h', hgen', hverify⟩ := verifyHash_generated halg salt content
    obtain rfl : h' = h := Except.ok.inj (hgen'.symm.trans hgen)
    obtain ⟨b, hb, hiff⟩ := hverify content
    rw [hb, hiff.mpr rfl]

/-- **What is generated verifies, and what else verifies**, for every algorithm and every salt:
another content does exactly when it has the same salted digest or derived key. Password hashes
verify for salts of every length.

**Proof sketch.** Base64 text has no separator and the last field is not empty, so that the
splitter finds the fields that were written and the decoder gives back digest, key and salt. -/
theorem generate_verify :
    (∀ (content : Bytes) (algorithm : HashAlgorithm) (salt : Salt), ∃ h,
      generateHash salt content algorithm = .ok h ∧
      verifyHash content h algorithm = .ok true ∧
      ∀ other, (∃ out, salted salt other algorithm = .ok out) ∧ ∃ b,
        verifyHash other h algorithm = .ok b ∧
          (b = true ↔ salted salt other algorithm = salted salt content algorithm)) ∧
    ∀ (password : Str) (salt : Bytes), ∃ h,
      generatePasswordHashWithSalt password salt = .ok h ∧
      verifyPasswordHash password h = .ok true := by
  have hpbkdf2 : ∀ (password : Str) (salt : Bytes),
      salted salt password .pbkdf2HmacSha1 = .ok (derived password salt 1000 kPbkdf2KeyLen) :=
    fun password salt => pbkdf2HmacSha1_eq _ _ _ _
  refine ⟨fun content algorithm salt => ?_, fun password salt => ?_⟩
  · by_cases halg : algorithm = .pbkdf2HmacSha1
    · subst halg
      obtain ⟨h, hgen, hverify⟩ := verifyPasswordHash_generated content salt
      refine ⟨h, hgen, by simp [verifyHash, hverify], fun other => ⟨⟨_, hpbkdf2 _ _⟩, ?_⟩⟩
      exact ⟨_, hverify other, by rw [hpbkdf2, hpbkdf2, Except.ok.injEq, decide_eq_true_iff]⟩
    · obtain ⟨h, hgen, hverify⟩ := verifyHash_generated halg salt content
      simp only [salted, if_neg halg]
      obtain ⟨b, hb, hiff⟩ := hverify content
      refine ⟨h, hgen, by rw [hb, hiff.mpr rfl], fun other => ⟨digest_total halg _, ?_⟩⟩
      exact hverify other
  · obtain ⟨h, hgen, hverify⟩ := verifyPasswordHash_generated password salt
    exact ⟨h, hgen, by simp [hverify]⟩

/-! ## Fingerprints -/

/-- PBKDF2 is no digest. -/
lemma generateFingerprint_pbkdf2 (data : Bytes) : generateFingerprint data .pbkdf2HmacSha1 =
    .error (.crypto (str "PBKDF2 is not a plain digest")) := rfl

/-- An upper-case hexadecimal digit. -/
def upperDigit (n : ℕ) : UInt8 := if n < 10 then UInt8.ofNat (48 + n) else UInt8.ofNat (55 + n)

/-- A byte as two upper-case hexadecimal digits. -/
def upperByte (b : UInt8) : Str := [upperDigit (b.toNat / 16), upperDigit (b.toNat % 16)]

@[simp] lemma length_upperByte (b : UInt8) : (upperByte b).length = 2 := rfl

/-- The upper-case hexadecimal text of some bytes. -/
def upperHex (data : Bytes) : Str := data.flatMap upperByte

/-- The two digits of a byte: `ToHex` takes them from its table, `std::stoi` reads them back, and
none of them is a colon. -/
lemma upperByte_spec (b : UInt8) :
    upperByte b = [(str "0123456789ABCDEF").getD (b >>> 4).toNat 0,
        (str "0123456789ABCDEF").getD (b &&& 0xf).toNat 0] ∧
      stoiHex (upperByte b) = .ok b.toNat ∧ 58 ∉ upperByte b := by
  revert b
  apply forall_byte
  decide +kernel

/-- Two digits for each byte. -/
lemma length_upperHex (data : Bytes) : (upperHex data).length = 2 * data.length := by
  induction data with
  | nil => rfl
  | cons b data ih =>
    have hcons : upperHex (b :: data) = upperByte b ++ upperHex data := rfl
    rw [hcons, List.length_append, ih, length_upperByte, List.length_cons]
    omega

/-- **The text is that of the bytes in groups of four**, with colons between them. -/
theorem toHex_eq (data : Bytes) :
    toHex data = [58].intercalate (Separated.groups 4 (upperHex data)) := by
  have hhex : (data.flatMap fun (b : UInt8) => [(str "0123456789ABCDEF").getD (b >>> 4).toNat 0,
      (str "0123456789ABCDEF").getD (b &&& 0xf).toNat 0]) = upperHex data :=
    List.flatMap_congr fun b _ => (upperByte_spec b).1.symm
  have hcolon : str ":" = [58] := by decide
  simp only [toHex, hhex, hcolon]
  exact Separated.flatMap_range_eq_intercalate 58 _ _

/-- No group has a colon in it. -/
lemma colon_not_mem_groups (data : Bytes) {g : Str}
    (h : g ∈ Separated.groups 4 (upperHex data)) : 58 ∉ g := by
  intro hmem
  have hflatten := List.mem_flatten.mpr ⟨g, h, hmem⟩
  rw [Separated.flatten_groups (by norm_num)] at hflatten
  obtain ⟨b, -, hb⟩ := List.mem_flatMap.mp hflatten
  exact (upperByte_spec b).2.2 hb

/-- **A fingerprint is read back**: deleting the colons leaves the digits, of which each pair is
that of its byte. -/
theorem fromHex_toHex (data : Bytes) : fromHex (toHex data) = .ok data := by
  have herase : (toHex data).filter (· ≠ 58) = upperHex data := by
    rw [toHex_eq, Separated.filter_intercalate fun g hg => colon_not_mem_groups data hg,
      Separated.flatten_groups (by norm_num)]
  have hread : ∀ i ∈ List.range data.length,
      (do .ok (UInt8.ofInt (← stoiHex (((upperHex data).drop (i * 2)).take 2))) : Outcome UInt8) =
        .ok (data.getD i 0) := by
    intro i hi
    have hi := List.mem_range.mp hi
    have hpair : ((upperHex data).drop (i * 2)).take 2 = upperByte data[i] :=
      Separated.take_drop_flatMap length_upperByte hi
    rw [hpair, (upperByte_spec _).2.1,
      Outcome.ok_bind, uint8_ofInt_toNat, List.getD_eq_getElem _ _ hi]
  have hbytes : (List.range data.length).map (data.getD · 0) = data := by
    apply List.ext_getElem
    · simp
    · intro i hi hi'
      rw [List.getElem_map, List.getElem_range, List.getD_eq_getElem _ _ hi']
  rw [fromHex, herase, length_upperHex, Nat.mul_div_cancel_left _ (by norm_num),
    Outcome.mapM_eq_ok hread, hbytes]

/-- A text in groups of four characters, of which the last has two when the number of bytes is
odd. -/
structure Grouped (data : Bytes) (groups : List Str) : Prop where
  flatten_eq : groups.flatten = upperHex data
  length_init : ∀ g ∈ groups.dropLast, g.length = 4
  length_last : ∀ g ∈ groups.getLast?, g.length = if data.length % 2 = 1 then 2 else 4

/-- The groups of a fingerprint. -/
lemma grouped_groups (data : Bytes) :
    Grouped data (Separated.groups 4 (upperHex data)) where
  flatten_eq := Separated.flatten_groups (by norm_num) _
  length_init g hg := Separated.length_of_mem_dropLast_groups (by norm_num) hg
  length_last g hg := by
    rw [Separated.length_of_mem_getLast?_groups (by norm_num) hg, length_upperHex]
    split_ifs <;> omega

/-- No group is empty. -/
lemma Grouped.ne_nil {data : Bytes} {groups : List Str} (h : Grouped data groups) {g : Str}
    (hg : g ∈ groups) : g ≠ [] := by
  apply List.ne_nil_of_length_pos
  have hne := List.ne_nil_of_mem hg
  rw [← List.dropLast_append_getLast hne] at hg
  rcases List.mem_append.mp hg with hinit | hlast
  · rw [h.length_init g hinit]
    norm_num
  · obtain rfl := List.mem_singleton.mp hlast
    rw [h.length_last _ (List.getLast?_eq_getLast_of_ne_nil hne)]
    split_ifs <;> norm_num

/-- **Fingerprints are read back**: of every byte sequence, `FromHex` makes what `ToHex` was given;
the text is the upper-case hexadecimal text in groups with colons between them, none of which is
its first or last character. Different byte sequences have different texts, and different digests
different fingerprints.

**Proof sketch.** The loop joins the groups of four (`toHex_eq`); deleting the colons leaves the
digits again, whose pairs do not depend on the groups (`fromHex_toHex`). What is read back cannot be
the same text for two byte sequences. -/
theorem toHex_round_trip :
    (∀ data : Bytes, fromHex (toHex data) = .ok data ∧
      (∃ groups, Grouped data groups ∧ toHex data = [58].intercalate groups) ∧
      (toHex data).head? ≠ some 58 ∧ (toHex data).getLast? ≠ some 58) ∧
    (∀ data data' : Bytes, toHex data = toHex data' → data = data') ∧
    ∀ (data data' : Bytes) (algorithm algorithm' : HashAlgorithm) (text : Str),
      generateFingerprint data algorithm = .ok text →
      generateFingerprint data' algorithm' = .ok text →
        digest data algorithm = digest data' algorithm' := by
  have hinj : ∀ data data' : Bytes, toHex data = toHex data' → data = data' := by
    intro data data' h
    have hback := fromHex_toHex data
    rw [h, fromHex_toHex] at hback
    exact (Except.ok.inj hback).symm
  refine ⟨fun data => ?_, hinj, ?_⟩
  · have hgroups : ∀ g ∈ Separated.groups 4 (upperHex data), g ≠ [] ∧ 58 ∉ g := fun g hg =>
      ⟨(grouped_groups data).ne_nil hg, colon_not_mem_groups data hg⟩
    refine ⟨fromHex_toHex data, ⟨_, grouped_groups data, toHex_eq data⟩, ?_, ?_⟩
    · rw [toHex_eq]
      exact Separated.head?_intercalate_ne hgroups
    · rw [toHex_eq]
      exact Separated.getLast?_intercalate_ne hgroups
  · intro data data' algorithm algorithm' text h h'
    obtain ⟨d, hd, htext⟩ := Outcome.bind_eq_ok.mp h
    obtain ⟨d', hd', htext'⟩ := Outcome.bind_eq_ok.mp h'
    rw [hd, hd', hinj d d' (Except.ok.inj (htext.trans htext'.symm))]

/-- `toHex_round_trip` for three bytes. -/
theorem toHex_round_trip_three :
    toHex [0xab, 0x01, 0xff] = str "AB01:FF" ∧
      fromHex (str "AB01:FF") = .ok [0xab, 0x01, 0xff] := by
  have htext : toHex [0xab, 0x01, 0xff] = str "AB01:FF" := by decide
  have hback := (toHex_round_trip.1 [0xab, 0x01, 0xff]).1
  exact ⟨htext, by rwa [htext] at hback⟩

end RaCommon.HashUtil
