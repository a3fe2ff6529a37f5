import RaCommon.Crypto.HashCash

set_option relaxedAutoImplicit false
set_option autoImplicit false

/-!
# Minting and parsing hashcash tokens (`crypto/hash_cash.hpp`)

`Parse` takes a token apart at its colons. It is stricter with the version, of which `std::stoi`
must read every character, than with the bits, of which it need not; and `std::stoi` itself passes
over white space and takes a sign.

## Main definitions

* `RaCommon.HashCash.ProofOfWork` — the digest of a token as a number below a power of two.
* `RaCommon.HashCash.Reads` — what `Parse` reads in the fields of a text.
* `RaCommon.HashCash.mintFields` — the fields that `MintWith` writes.
* `RaCommon.HashCash.WellFormed`, `RaCommon.HashCash.Accepted`, `RaCommon.HashCash.Lenient` — the
  tokens as they are meant to be, and the texts that are accepted.
* `RaCommon.HashCash.Underclaims` — a token of version 1 that is worth more than it claims.

## Main results

* `RaCommon.HashCash.parse_cases` — what `Parse` does.
* `RaCommon.HashCash.mint_parse_iff` — which tokens are read back as they were minted.
* `RaCommon.HashCash.parse_strict_iff` — on which texts `Parse` accepts exactly the tokens.
* `RaCommon.HashCash.isValidFor_iff_value` — when the check of a token agrees with its value.
* `RaCommon.HashCash.generateLoop_eq` — the search finds the first candidate with the proof of work.
* `RaCommon.HashCash.leadingZeroBits_threshold` — leading zero bits as a threshold on the digest.
-/

namespace RaCommon.HashCash

/-! ## The digest -/

/-- The proof of work of a token: its digest, read as a number, is below a power of two. -/
def ProofOfWork (token : Str) (bits : ℤ) : Prop :=
  ∃ digest, Sha.sha1 token = .ok digest ∧ bigEndian digest < 2 ^ (kHashBits - bits).toNat

/-- The digest is the one `Sha1` returns. -/
lemma proofOfWork_iff (token : Str) (bits : ℤ) : ProofOfWork token bits ↔
    bigEndian (Pbkdf2.sha1Digest token) < 2 ^ (kHashBits - bits).toNat := by
  simp [ProofOfWork, Pbkdf2.sha1_eq]

instance (token : Str) (bits : ℤ) : Decidable (ProofOfWork token bits) :=
  decidable_of_iff _ (proofOfWork_iff token bits).symm

/-- **The leading zero bits of a token's digest are counted**, and are a threshold on it. -/
theorem sha1Bits_spec (token : Str) : ∃ actual, sha1Bits token = .ok actual ∧
    ∀ bits ≤ kHashBits, (bits ≤ actual ↔ ProofOfWork token bits) := by
  have hlength := Pbkdf2.length_sha1Digest token
  have hbits : 8 * ((Pbkdf2.sha1Digest token).length : ℤ) = kHashBits := by rw [hlength]; rfl
  have hshort : (Pbkdf2.sha1Digest token).length < 2 ^ 28 := by rw [hlength]; norm_num
  obtain ⟨actual, hactual, hiff⟩ := leadingZeroBits_spec hshort
  refine ⟨actual, ?_, fun bits hle => ?_⟩
  · rw [sha1Bits, Pbkdf2.sha1_eq, Outcome.ok_bind, hactual]
  · rw [proofOfWork_iff, hiff bits (hbits ▸ hle), hbits]

/-- The leading zero bits of a token's digest are counted. -/
lemma sha1Bits_total (token : Str) : ∃ n, sha1Bits token = .ok n :=
  (sha1Bits_spec token).imp fun _ h => h.1

/-! ## What is read -/

/-- What `Parse` reads in the fields of a text: the version, the bits, the date, and the fields of
the resource and the extensions. -/
structure Reads (parts : List Str) (version bits : ℤ) (date : YearMonthDay)
    (resource extStr : Str) : Prop where
  version_eq : version = 0 ∨ version = 1
  version_read : ∃ part, parts[0]? = some part ∧ stoi part = .ok (version, part.length)
  count_eq : (Int32.ofNat parts.length).toInt = expectedParts version
  bits_read : if version = 1 then ∃ part n, parts[1]? = some part ∧ stoi part = .ok (bits, n)
    else bits = 0
  date_read : parts[version.toNat + 1]? = some (fmtYyMmDd date)
  representable : Representable date
  resource_eq : parts[version.toNat + 2]? = some resource
  extensions_eq : parts[version.toNat + 3]? = some extStr

@[simp] lemma partAt_of_getElem? {parts : List Str} {i : ℕ} {part : Str}
    (h : parts[i]? = some part) : partAt parts i = .ok part := by
  rw [partAt, h]

/-- Versions 0 and 1 have six and seven fields, the others none. -/
lemma expectedParts_eq {version : ℤ} (h : version = 0 ∨ version = 1) :
    expectedParts version = (version.toNat + 6 : ℕ) ∧
      (if version = 1 then 2 else 1) = version.toNat + 1 := by
  rcases h with rfl | rfl
  · exact ⟨rfl, rfl⟩
  · exact ⟨rfl, rfl⟩

/-- **What is read makes the token that is returned.** -/
theorem parse_of_reads {token resource extStr : Str} {version bits actual : ℤ}
    {date : YearMonthDay} (h : Reads (splitOn token 58) version bits date resource extStr)
    (hactual : sha1Bits token = .ok actual) :
    parse token = .ok ⟨token, if version = 0 then actual else min actual bits, resource, date,
      version, deserializeExtensions extStr⟩ := by
  obtain ⟨part, hpart, hread⟩ := h.version_read
  obtain ⟨hexpected, hidx⟩ := expectedParts_eq h.version_eq
  have hne : expectedParts version ≠ -1 := by omega
  have hversion : parseVersion (splitOn token 58) = .ok version := by
    rw [parseVersion, partAt_of_getElem? hpart, Outcome.ok_bind, hread, Outcome.ok_bind]
    simp [orInvalid]
  have hbits : parseBits version (splitOn token 58) = .ok bits := by
    have hbits := h.bits_read
    unfold parseBits
    by_cases h1 : version = 1
    · rw [if_pos h1] at hbits ⊢
      obtain ⟨bitsPart, n, hbitsPart, hbitsRead⟩ := hbits
      rw [partAt_of_getElem? hbitsPart, Outcome.ok_bind, hbitsRead]
      rfl
    · rw [if_neg h1] at hbits ⊢
      rw [hbits]
  have hdate := parseYyMmDd_iff.mpr ⟨h.representable, rfl⟩
  simp only [parse, hversion, Outcome.ok_bind, if_neg hne, h.count_eq, ne_eq, not_true_eq_false,
    if_false, hbits, hidx, partAt_of_getElem? h.date_read, hdate,
    partAt_of_getElem? h.resource_eq, partAt_of_getElem? h.extensions_eq, hactual]

/-- `catch (...)` leaves the value, or the error it throws. -/
lemma orInvalid_cases {α : Type} (message : Str) (x : Outcome α) :
    (∃ a, x = .ok a ∧ orInvalid message x = .ok a) ∨
      orInvalid message x = .error (.invalid message) := by
  cases x with
  | ok a => exact .inl ⟨a, rfl, rfl⟩
  | error e => exact .inr rfl

/-- A part that is there. -/
lemma getElem?_of_partAt {parts : List Str} {i : ℕ} {part : Str} (h : partAt parts i = .ok part) :
    parts[i]? = some part := by
  unfold partAt at h
  cases hpart : parts[i]? with
  | none =>
    rw [hpart] at h
    cases h
  | some part' =>
    rw [hpart] at h
    rw [Except.ok.inj h]

/-- The version that is read is the number of the whole first field. -/
lemma parseVersion_cases (parts : List Str) :
    (∃ version part, parseVersion parts = .ok version ∧ parts[0]? = some part ∧
      stoi part = .ok (version, part.length)) ∨
    ∃ message, parseVersion parts = .error (.invalid message) := by
  rcases orInvalid_cases (str "bad hashcash version") (do
    let part ← partAt parts 0
    let r ← stoi part
    if r.2 ≠ part.length then .error .invalidArgument else .ok r.1 : Outcome ℤ) with
    ⟨version, h, hread⟩ | herror
  · refine .inl ⟨version, ?_⟩
    obtain ⟨part, hpart, h⟩ := Outcome.bind_eq_ok.mp h
    obtain ⟨⟨x, consumed⟩, hx, h⟩ := Outcome.bind_eq_ok.mp h
    split at h
    · cases h
    · next hconsumed =>
      obtain rfl := Except.ok.inj h
      obtain rfl := not_not.mp hconsumed
      exact ⟨part, hread, getElem?_of_partAt hpart, hx⟩
  · exact .inr ⟨_, herror⟩

/-- The bits that are read are the number the second field begins with, in version 1. -/
lemma parseBits_cases (version : ℤ) (parts : List Str) :
    (∃ bits, parseBits version parts = .ok bits ∧
      if version = 1 then ∃ part n, parts[1]? = some part ∧ stoi part = .ok (bits, n)
      else bits = 0) ∨
    ∃ message, parseBits version parts = .error (.invalid message) := by
  unfold parseBits
  by_cases h1 : version = 1
  · simp only [if_pos h1]
    rcases orInvalid_cases (str "bad hashcash bits")
      (do .ok (← stoi (← partAt parts 1)).1 : Outcome ℤ) with ⟨bits, h, hread⟩ | herror
    · obtain ⟨part, hpart, h⟩ := Outcome.bind_eq_ok.mp h
      obtain ⟨⟨x, n⟩, hx, h⟩ := Outcome.bind_eq_ok.mp h
      obtain rfl := Except.ok.inj h
      exact .inl ⟨x, hread, part, n, getElem?_of_partAt hpart, hx⟩
    · exact .inr ⟨_, herror⟩
  · simp only [if_neg h1]
    exact .inl ⟨0, rfl, rfl⟩

/-- A number of fields that the cast to `int` turns into one of the expected numbers is not
smaller. -/
lemma le_of_count {n k : ℕ} (hk : k < 2 ^ 31) (h : (Int32.ofNat n).toInt = k) : k ≤ n := by
  by_contra hlt
  rw [Int32.toInt_ofNat_of_lt (by omega)] at h
  omega

/-- The version and the number of fields are right: what is left to read is the bits and the
date. -/
lemma parse_cases_of_count {token : Str} {version : ℤ} {part : Str}
    (hversion : parseVersion (splitOn token 58) = .ok version) (hv : version = 0 ∨ version = 1)
    (hpart : (splitOn token 58)[0]? = some part) (hread : stoi part = .ok (version, part.length))
    (hcount : (Int32.ofNat (splitOn token 58).length).toInt = expectedParts version) :
    (∃ version bits date resource extStr,
      Reads (splitOn token 58) version bits date resource extStr) ∨
    ∃ message, parse token = .error (.invalid message) := by
  obtain ⟨hexpected, hidx⟩ := expectedParts_eq hv
  have hlen := le_of_count (by omega) (hcount.trans hexpected)
  have hne : expectedParts version ≠ -1 := by omega
  have hget : ∀ i, i < version.toNat + 6 → ∃ p, (splitOn token 58)[i]? = some p := fun i hi =>
    ⟨_, List.getElem?_eq_getElem (by omega)⟩
  obtain ⟨datePart, hdate⟩ := hget (version.toNat + 1) (by omega)
  obtain ⟨resource, hresource⟩ := hget (version.toNat + 2) (by omega)
  obtain ⟨extStr, hext⟩ := hget (version.toNat + 3) (by omega)
  rcases parseBits_cases version (splitOn token 58) with ⟨bits, hbits, hbitsRead⟩ | ⟨message, hbits⟩
  · rcases parseYyMmDd_cases datePart with ⟨date, -, hrep, rfl⟩ | herror
    · exact .inl ⟨version, bits, date, resource, extStr, hv, ⟨part, hpart, hread⟩, hcount,
        hbitsRead, hdate, hrep, hresource, hext⟩
    · refine .inr ⟨str "bad hashcash date: " ++ datePart, ?_⟩
      simp only [parse, hversion, Outcome.ok_bind, if_neg hne, hcount, ne_eq, not_true_eq_false,
        if_false, hbits, hidx, partAt_of_getElem? hdate, herror, Outcome.error_bind]
  · refine .inr ⟨message, ?_⟩
    simp only [parse, hversion, Outcome.ok_bind, if_neg hne, hcount, ne_eq, not_true_eq_false,
      if_false, hbits, Outcome.error_bind]

/-- **What `Parse` does**: it reads the fields, or throws an error of kind `Invalid`. -/
theorem parse_cases (token : Str) :
    (∃ version bits date resource extStr,
      Reads (splitOn token 58) version bits date resource extStr) ∨
    ∃ message, parse token = .error (.invalid message) := by
  rcases parseVersion_cases (splitOn token 58) with
    ⟨version, part, hversion, hpart, hread⟩ | ⟨message, herror⟩
  · by_cases hv : version = 0 ∨ version = 1
    · by_cases hcount :
        (Int32.ofNat (splitOn token 58).length).toInt = expectedParts version
      · exact parse_cases_of_count hversion hv hpart hread hcount
      · have hne : expectedParts version ≠ -1 := by
          have h := (expectedParts_eq hv).1
          omega
        refine .inr ⟨str "improperly formed hashcash", ?_⟩
        simp only [parse, hversion, Outcome.ok_bind, if_neg hne, ne_eq, hcount,
          not_false_eq_true, if_true]
    · have hnone : expectedParts version = -1 := by
        obtain ⟨h0, h1⟩ := not_or.mp hv
        rw [expectedParts, if_neg h0, if_neg h1]
      refine .inr ⟨str "only hashcash versions 0 and 1 are supported", ?_⟩
      simp only [parse, hversion, Outcome.ok_bind, hnone, if_true]
  · exact .inr ⟨message, by simp only [parse, herror, Outcome.error_bind]⟩

/-- **What `Parse` returns** is made of what it reads and of the digest's leading zero bits. -/
theorem parse_eq_ok {token : Str} {h : HashCash} :
    parse token = .ok h ↔ ∃ version bits date resource extStr actual,
      Reads (splitOn token 58) version bits date resource extStr ∧ sha1Bits token = .ok actual ∧
        h = ⟨token, if version = 0 then actual else min actual bits, resource, date, version,
          deserializeExtensions extStr⟩ := by
  constructor
  · intro hparse
    obtain ⟨actual, hactual⟩ := sha1Bits_total token
    rcases parse_cases token with ⟨version, bits, date, resource, extStr, hreads⟩ | ⟨_, herror⟩
    · rw [parse_of_reads hreads hactual] at hparse
      exact ⟨version, bits, date, resource, extStr, actual, hreads, hactual,
        (Except.ok.inj hparse).symm⟩
    · rw [herror] at hparse
      cases hparse
  · rintro ⟨version, bits, date, resource, extStr, actual, hreads, hactual, rfl⟩
    exact parse_of_reads hreads hactual

/-! ## What is minted -/

/-- No hexadecimal digit is a colon. -/
lemma colon_ne_hexDigit {d : ℕ} (hd : d < 16) : 58 ≠ hexDigit (UInt8.ofNat d) := by
  intro h
  have hdigit := (hexDigit_spec hd).1
  rw [← h] at hdigit
  exact absurd hdigit (by decide)

/-- The random text has no colon. -/
lemma colon_not_mem_hexBytes (data : Bytes) : 58 ∉ data.flatMap hexByte := by
  intro hmem
  obtain ⟨b, -, hmem⟩ := List.mem_flatMap.mp hmem
  have hb := b.toNat_lt
  rw [hexByte_eq] at hmem
  simp only [List.mem_cons, List.not_mem_nil, or_false] at hmem
  rcases hmem with hmem | hmem
  · exact colon_ne_hexDigit (by omega) hmem
  · exact colon_ne_hexDigit (by omega) hmem

/-- A counter has no colon. -/
lemma colon_not_mem_hexText (n : ℕ) : 58 ∉ hexText n := by
  intro hmem
  unfold hexText at hmem
  split_ifs at hmem with hn
  · exact absurd hmem (by decide)
  · obtain ⟨d, hd, h⟩ := List.mem_map.mp hmem
    exact colon_ne_hexDigit (Numeral.text_lt (by norm_num) 0 n d hd) h.symm

/-- The fields that `MintWith` writes. -/
def mintFields (version bits : ℤ) (dateStr resource extStr rnd counter : Str) : List Str :=
  (if version = 0 then [str "0"] else [str "1", toText bits]) ++
    [dateStr, resource, extStr, rnd, counter]

/-- A candidate is its fields with colons between them. -/
lemma mintPrefix_append (version bits : ℤ) (dateStr resource extStr rnd counter : Str) :
    mintPrefix version bits dateStr resource extStr ++ rnd ++ str ":" ++ counter =
      [58].intercalate (mintFields version bits dateStr resource extStr rnd counter) := by
  have hcolon : str ":" = [58] := by decide
  have hzero : str "0:" = str "0" ++ [58] := by decide
  have hone : str "1:" = str "1" ++ [58] := by decide
  unfold mintPrefix mintFields
  split_ifs with hversion
  · simp only [hcolon, hzero, List.cons_append, List.nil_append, List.intercalate_cons_cons,
      List.intercalate_singleton, List.append_assoc]
  · simp only [hcolon, hone, List.cons_append, List.nil_append, List.intercalate_cons_cons,
      List.intercalate_singleton, List.append_assoc]

/-- The loop ends with a candidate of enough leading zero bits. -/
lemma generateLoop_spec {stem token : Str} {bits : ℤ} {counter : UInt64} {rounds : ℕ}
    (h : generateLoop stem bits counter rounds = .ok (some token)) :
    ∃ n : ℕ, token = stem ++ hexText n ∧ ∃ actual, sha1Bits token = .ok actual ∧ bits ≤ actual := by
  induction rounds generalizing counter with
  | zero => cases h
  | succ rounds ih =>
    obtain ⟨actual, hactual, h⟩ := Outcome.bind_eq_ok.mp h
    by_cases hbits : bits ≤ actual
    · rw [if_pos hbits] at h
      obtain rfl := Option.some.inj (Except.ok.inj h)
      exact ⟨_, rfl, actual, hactual, hbits⟩
    · rw [if_neg hbits] at h
      exact ih h

/-- What `MintWith` returns: fields without colons, joined, and the value they are worth. -/
structure Minted (resource : Str) (extensions : Extensions) (date : YearMonthDay)
    (bits version : Int32) (extStr rnd counter : Str) (actual : ℤ) (h : HashCash) : Prop where
  serialized : serializeExtensions extensions = .ok extStr
  token_eq : h.token = [58].intercalate
    (mintFields version.toInt bits.toInt (fmtYyMmDd date) resource extStr rnd counter)
  free : ∀ part ∈ mintFields version.toInt bits.toInt (fmtYyMmDd date) resource extStr rnd counter,
    58 ∉ part
  actual_eq : sha1Bits h.token = .ok actual
  bits_le : bits.toInt ≤ actual
  eq : h = ⟨h.token, if version.toInt = 0 then actual else bits.toInt, resource, date,
    version.toInt, extensions⟩

/-- **What `MintWith` returns.** -/
theorem minted_of_mintWith {d : MintDraw} {rounds : ℕ} {resource : Str} {extensions : Extensions}
    {date : YearMonthDay} {bits version : Int32} {h : HashCash}
    (hmint : mintWith d rounds resource extensions date bits version = .ok (some h)) :
    ∃ extStr rnd counter actual,
      Minted resource extensions date bits version extStr rnd counter actual h := by
  unfold mintWith at hmint
  split_ifs at hmint with hversion hbits hresource
  obtain ⟨extStr, hext, hmint⟩ := Outcome.bind_eq_ok.mp hmint
  obtain ⟨found, hgenerate, hmint⟩ := Outcome.bind_eq_ok.mp hmint
  cases found with
  | none => cases hmint
  | some token =>
    obtain ⟨n, htoken, actual, hactual, hle⟩ := generateLoop_spec hgenerate
    rw [mintPrefix_append] at htoken
    have hvalue : mintValue version.toInt bits.toInt token =
        .ok (if version.toInt = 0 then actual else bits.toInt) := by
      unfold mintValue
      split_ifs
      · exact hactual
      · rfl
    simp only [hvalue, Outcome.ok_bind] at hmint
    obtain rfl := Option.some.inj (Except.ok.inj hmint)
    refine ⟨extStr, _, _, actual, hext, htoken, ?_, hactual, hle, rfl⟩
    have hdigit : ∀ part ∈ (if version.toInt = 0 then [str "0"] else [str "1", toText bits.toInt]),
        58 ∉ part := by
      split_ifs
      · exact List.forall_mem_singleton.mpr (by decide)
      · rw [List.forall_mem_cons, List.forall_mem_singleton]
        exact ⟨by decide, colon_not_mem_toText _⟩
    have hfree : (58 : UInt8) ∉ resource := by simpa using hresource
    refine List.forall_mem_append.mpr ⟨hdigit, ?_⟩
    simp only [List.forall_mem_cons, List.not_mem_nil, false_imp_iff, implies_true, and_true]
    exact ⟨colon_not_mem_fmtYyMmDd date, hfree, (deserialize_serialize hext).1,
      colon_not_mem_hexBytes _, colon_not_mem_hexText _⟩

/-- The fields of a token of version 0 or 1, with a representable date, are read as they were
written. -/
lemma reads_mintFields {version bits : ℤ} {date : YearMonthDay} (hv : version = 0 ∨ version = 1)
    (hbits : -2 ^ 31 ≤ bits ∧ bits < 2 ^ 31) (hrep : Representable date)
    (resource extStr rnd counter : Str) :
    Reads (mintFields version bits (fmtYyMmDd date) resource extStr rnd counter) version
      (if version = 1 then bits else 0) date resource extStr := by
  rcases hv with rfl | rfl
  · exact ⟨.inl rfl, ⟨str "0", rfl, by decide⟩, rfl, by simp, rfl, hrep, rfl, rfl⟩
  · refine ⟨.inr rfl, ⟨str "1", rfl, by decide⟩, rfl, ?_, rfl, hrep, rfl, rfl⟩
    rw [if_pos rfl, if_pos rfl]
    exact ⟨toText bits, _, rfl, stoi_of_decimal (decimal_toText bits) hbits⟩

/-- The fields of a minted token. -/
lemma Minted.splitOn_eq {resource extStr rnd counter : Str} {extensions : Extensions}
    {date : YearMonthDay} {bits version : Int32} {actual : ℤ} {h : HashCash}
    (hm : Minted resource extensions date bits version extStr rnd counter actual h) :
    splitOn h.token 58 =
      mintFields version.toInt bits.toInt (fmtYyMmDd date) resource extStr rnd counter := by
  have hne : mintFields version.toInt bits.toInt (fmtYyMmDd date) resource extStr rnd counter ≠
      [] := List.append_ne_nil_of_right_ne_nil _ (List.cons_ne_nil _ _)
  rw [hm.token_eq, splitOn_intercalate hne hm.free]

/-- **When a minted token is read back.** `Parse` of a token that `MintWith` has returned succeeds
with the same value, resource, date, version and extensions exactly when the version is 0 or 1, the
date is one that two digits of the year represent, and the extensions are not the empty key alone
without values.

**Proof sketch.** The fields that were written have no colons, so the splitter finds them
(`Minted.splitOn_eq`), and each is read back by the lemma about its writer; of the bits, `Generate`
has found at least as many, so that the smaller number is theirs. Conversely `Parse` returns
versions 0 and 1 and representable dates only, and the one unmarked map has the text of the empty
one. -/
theorem mint_parse_iff {d : MintDraw} {rounds : ℕ} {resource : Str} {extensions : Extensions}
    {date : YearMonthDay} {bits version : Int32} {h : HashCash}
    (hmint : mintWith d rounds resource extensions date bits version = .ok (some h)) :
    parse h.token = .ok h ↔
      (version.toInt = 0 ∨ version.toInt = 1) ∧ Representable date ∧ ¬ Unmarked extensions := by
  obtain ⟨extStr, rnd, counter, actual, hm⟩ := minted_of_mintWith hmint
  have hext := (deserialize_serialize hm.serialized).2
  have hh := hm.eq
  constructor
  · intro hparse
    obtain ⟨v, b, date', resource', extStr', actual', hreads, -, hparsed⟩ := parse_eq_ok.mp hparse
    have hsame := hh.symm.trans hparsed
    simp only [HashCash.mk.injEq] at hsame
    obtain ⟨-, -, -, rfl, rfl, hback⟩ := hsame
    refine ⟨hreads.version_eq, hreads.representable, ?_⟩
    have hextStr := (reads_mintFields hreads.version_eq ⟨bits.le_toInt, bits.toInt_lt⟩
      hreads.representable resource extStr rnd counter).extensions_eq
    have hread := hreads.extensions_eq
    rw [hm.splitOn_eq, hextStr, Option.some.injEq] at hread
    rw [← hread] at hback
    exact hext.mp hback.symm
  · rintro ⟨hv, hrep, hmarked⟩
    have hreads := reads_mintFields hv ⟨bits.le_toInt, bits.toInt_lt⟩ hrep resource extStr rnd
      counter
    rw [← hm.splitOn_eq] at hreads
    have hvalue : (if version.toInt = 0 then actual
        else min actual (if version.toInt = 1 then bits.toInt else 0)) =
          if version.toInt = 0 then actual else bits.toInt := by
      have hle := hm.bits_le
      split_ifs <;> omega
    rw [parse_of_reads hreads hm.actual_eq, hvalue, hext.mpr hmarked, ← hh]

/-- What the examples of tokens draw. -/
def zeroDraw : MintDraw := ⟨⟨List.replicate 8 0, rfl⟩, 0⟩

/-- A search that has ended has found something. -/
lemma exists_of_isSome {α : Type} {x : Outcome (Option α)}
    (h : (x.toOption.bind id).isSome = true) : ∃ a, x = .ok (some a) := by
  cases x with
  | error e => cases h
  | ok found =>
    cases found with
    | none => cases h
    | some a => exact ⟨a, rfl⟩

/-- `mint_parse_iff` for a token of leap day. -/
theorem mint_parse_leapDay : ∃ h,
    mintWith zeroDraw 1 (str "me@example.org") .empty ⟨2024, 2, 29⟩ 0 1 = .ok (some h) ∧
      parse h.token = .ok h := by
  obtain ⟨h, hmint⟩ := exists_of_isSome (show ((mintWith zeroDraw 1 (str "me@example.org") .empty
    ⟨2024, 2, 29⟩ 0 1).toOption.bind id).isSome = true by decide +kernel)
  refine ⟨h, hmint, (mint_parse_iff hmint).mpr ⟨.inr (by decide), ?_, ?_⟩⟩
  · exact ⟨by decide, by decide, by decide⟩
  · exact fun hun => nomatch hun

/-- A token of version -1 is minted, and written as one of version 1. -/
theorem negative_version_not_read_back :
    ¬ ∀ (d : MintDraw) (rounds : ℕ) (resource : Str) (extensions : Extensions)
      (date : YearMonthDay) (bits version : Int32) (h : HashCash), date.ok = true →
      mintWith d rounds resource extensions date bits version = .ok (some h) →
        parse h.token = .ok h := by
  intro hall
  obtain ⟨h, hmint⟩ := exists_of_isSome (show ((mintWith zeroDraw 1 (str "me@example.org") .empty
    ⟨2024, 2, 29⟩ 0 (-1)).toOption.bind id).isSome = true by decide +kernel)
  have hparse := hall _ _ _ _ _ _ _ h (by decide) hmint
  obtain ⟨extStr, rnd, counter, actual, hm⟩ := minted_of_mintWith hmint
  have hversion : h.version = -1 := by
    rw [hm.eq]
    show (-1 : Int32).toInt = -1
    decide
  obtain ⟨v, b, date, resource, ext, actual', hreads, -, hparsed⟩ := parse_eq_ok.mp hparse
  have hv := congrArg HashCash.version hparsed
  have hv' := hreads.version_eq
  simp only [hversion] at hv
  omega

/-! ## What is accepted -/

/-- **The tokens as they are meant to be**: `0:yymmdd:resource:ext:rand:counter` or
`1:bits:yymmdd:resource:ext:rand:counter` with no other colon. -/
def WellFormed (t : Str) : Prop :=
  ∃ date resource ext rand counter, Representable date ∧
    (∀ part ∈ [resource, ext, rand, counter], 58 ∉ part) ∧
    (t = [58].intercalate [str "0", fmtYyMmDd date, resource, ext, rand, counter] ∨
      ∃ bits x, Decimal bits x ∧ (-2 ^ 31 ≤ x ∧ x < 2 ^ 31) ∧
        t = [58].intercalate [str "1", bits, fmtYyMmDd date, resource, ext, rand, counter])

/-- The fields that `Parse` accepts. The version may have white space before it and be written with
a sign or leading zeros; the bits may have white space before them and anything after them; and the
number of fields is taken modulo `2 ^ 32`. -/
structure Accepted (parts : List Str) (version : ℤ) : Prop where
  version_eq : version = 0 ∨ version = 1
  version_field : ∃ blank number, parts[0]? = some (blank ++ number) ∧ (∀ c ∈ blank, isSpace c) ∧
    Decimal number version
  count_eq : parts.length % 2 ^ 32 = version.toNat + 6
  bits_field : version = 1 → ∃ part x n, parts[1]? = some part ∧ LeadingDecimal part x n ∧
    (-2 ^ 31 ≤ x ∧ x < 2 ^ 31)
  date_field : ∃ date, Representable date ∧ parts[version.toNat + 1]? = some (fmtYyMmDd date)

/-- A version that is not spelled `0` or `1`, too many fields, or bits with something else in their
field. -/
def Loose (parts : List Str) (version : ℤ) : Prop :=
  parts[0]? ≠ some (toText version) ∨ parts.length ≠ version.toNat + 6 ∨
    version = 1 ∧ ∀ part x, parts[1]? = some part → ¬ Decimal part x

/-- The texts that `Parse` accepts though they are not well formed. -/
def Lenient (t : Str) : Prop :=
  ∃ version, Accepted (splitOn t 58) version ∧ Loose (splitOn t 58) version

/-- The number of fields after the cast to `int`. -/
lemma count_iff {n k : ℕ} (hk : k < 2 ^ 31) : (Int32.ofNat n).toInt = k ↔ n % 2 ^ 32 = k := by
  rw [Int32.toInt_ofNat', Int.bmod_def, show Int32.size = 2 ^ 32 from rfl]
  split_ifs <;> omega

/-- **The fields that are accepted** are those that are read. -/
theorem accepted_iff_reads {parts : List Str} {version : ℤ} :
    Accepted parts version ↔ ∃ bits date resource extStr,
      Reads parts version bits date resource extStr := by
  constructor
  · rintro ⟨hv, ⟨blank, number, hpart, hblank, hnumber⟩, hcount, hbits, date, hrep, hdate⟩
    obtain ⟨hexpected, -⟩ := expectedParts_eq hv
    have hle : version.toNat + 6 ≤ parts.length := hcount ▸ Nat.mod_le _ _
    have hresource := List.getElem?_eq_getElem (show version.toNat + 2 < parts.length by omega)
    have hext := List.getElem?_eq_getElem (show version.toNat + 3 < parts.length by omega)
    have hint : -2 ^ 31 ≤ version ∧ version < 2 ^ 31 := by
      rcases hv with rfl | rfl
      · decide
      · decide
    have hread : stoi (blank ++ number) = .ok (version, (blank ++ number).length) :=
      stoi_iff.mpr ⟨⟨blank, number, [], by simp, hblank, hnumber, by simp, by simp⟩, hint⟩
    have hcast : (Int32.ofNat parts.length).toInt = expectedParts version := by
      rw [hexpected]
      exact (count_iff (by omega)).mpr hcount
    by_cases h1 : version = 1
    · obtain ⟨part, x, n, hbitsPart, hx, hrange⟩ := hbits h1
      refine ⟨x, date, _, _, hv, ⟨_, hpart, hread⟩, hcast, ?_, hdate, hrep, hresource, hext⟩
      rw [if_pos h1]
      exact ⟨part, n, hbitsPart, stoi_iff.mpr ⟨hx, hrange⟩⟩
    · refine ⟨0, date, _, _, hv, ⟨_, hpart, hread⟩, hcast, ?_, hdate, hrep, hresource, hext⟩
      rw [if_neg h1]
  · rintro ⟨bits, date, resource, extStr, h⟩
    obtain ⟨hexpected, -⟩ := expectedParts_eq h.version_eq
    have hbound : version.toNat + 6 < 2 ^ 31 := by
      have hv := h.version_eq
      omega
    obtain ⟨part, hpart, hread⟩ := h.version_read
    obtain ⟨blank, number, rfl, hblank, hnumber⟩ := decimal_of_stoi hread
    refine ⟨h.version_eq, ⟨blank, number, hpart, hblank, hnumber⟩,
      (count_iff hbound).mp (h.count_eq.trans hexpected), fun h1 => ?_, date, h.representable,
      h.date_read⟩
    have hbits := h.bits_read
    rw [if_pos h1] at hbits
    obtain ⟨bitsPart, n, hbitsPart, hbitsRead⟩ := hbits
    exact ⟨bitsPart, bits, n, hbitsPart, stoi_iff.mp hbitsRead⟩

/-- A text has one version. -/
lemma Accepted.version_unique {parts : List Str} {version version' : ℤ}
    (h : Accepted parts version) (h' : Accepted parts version') : version = version' := by
  obtain ⟨_, _, _, _, hreads⟩ := accepted_iff_reads.mp h
  obtain ⟨_, _, _, _, hreads'⟩ := accepted_iff_reads.mp h'
  obtain ⟨part, hpart, hread⟩ := hreads.version_read
  obtain ⟨part', hpart', hread'⟩ := hreads'.version_read
  obtain rfl := Option.some.inj (hpart.symm.trans hpart')
  exact (Prod.mk.inj (Except.ok.inj (hread.symm.trans hread'))).1

/-- **What `Parse` returns for**: the accepted texts. -/
theorem parse_ok_iff (t : Str) :
    (∃ h, parse t = .ok h) ↔ ∃ version, Accepted (splitOn t 58) version := by
  constructor
  · rintro ⟨h, hparse⟩
    obtain ⟨version, bits, date, resource, extStr, _, hreads, -, -⟩ := parse_eq_ok.mp hparse
    exact ⟨version, accepted_iff_reads.mpr ⟨bits, date, resource, extStr, hreads⟩⟩
  · rintro ⟨version, haccepted⟩
    obtain ⟨bits, date, resource, extStr, hreads⟩ := accepted_iff_reads.mp haccepted
    obtain ⟨actual, hactual⟩ := sha1Bits_total t
    exact ⟨_, parse_of_reads hreads hactual⟩

/-- No colon is in a decimal integer. -/
lemma colon_not_mem_decimal {s : Str} {x : ℤ} (h : Decimal s x) : 58 ∉ s :=
  h.not_mem rfl (by decide) (by decide)

/-- **The well-formed texts** are the accepted ones that are not loose. -/
theorem wellFormed_iff (t : Str) :
    WellFormed t ↔
      ∃ version, Accepted (splitOn t 58) version ∧ ¬ Loose (splitOn t 58) version := by
  constructor
  · rintro ⟨date, resource, ext, rand, counter, hrep, hfree, rfl | ⟨bits, x, hbits, hx, rfl⟩⟩
    · have hfields : ∀ part ∈ [str "0", fmtYyMmDd date, resource, ext, rand, counter], 58 ∉ part :=
        List.forall_mem_cons.mpr ⟨by decide,
          List.forall_mem_cons.mpr ⟨colon_not_mem_fmtYyMmDd date, hfree⟩⟩
      rw [splitOn_intercalate (List.cons_ne_nil _ _) hfields]
      refine ⟨0, ⟨.inl rfl, ⟨[], str "0", rfl, by simp, decimal_toText 0⟩, rfl,
        fun h => absurd h (by decide), date, hrep, rfl⟩, ?_⟩
      rintro (hversion | hcount | ⟨h, -⟩)
      · exact hversion rfl
      · exact hcount rfl
      · cases h
    · have hfields : ∀ part ∈ [str "1", bits, fmtYyMmDd date, resource, ext, rand, counter],
          58 ∉ part :=
        List.forall_mem_cons.mpr ⟨by decide, List.forall_mem_cons.mpr ⟨colon_not_mem_decimal hbits,
          List.forall_mem_cons.mpr ⟨colon_not_mem_fmtYyMmDd date, hfree⟩⟩⟩
      rw [splitOn_intercalate (List.cons_ne_nil _ _) hfields]
      refine ⟨1, ⟨.inr rfl, ⟨[], str "1", rfl, by simp, decimal_toText 1⟩, rfl, fun _ => ?_, date,
        hrep, rfl⟩, ?_⟩
      · exact ⟨bits, x, _, rfl, strtol_iff.mp (strtol_of_decimal hbits), hx⟩
      rintro (hversion | hcount | ⟨-, hloose⟩)
      · exact hversion rfl
      · exact hcount rfl
      · exact hloose bits x rfl hbits
  · rintro ⟨version, haccepted, hstrict⟩
    have hjoin := intercalate_splitOn t 58
    have hfree : ∀ part ∈ splitOn t 58, 58 ∉ part := fun part hpart => not_mem_of_mem_splitOn hpart
    generalize splitOn t 58 = parts at haccepted hstrict hjoin hfree
    simp only [Loose, not_or, not_not, not_and, not_forall] at hstrict
    obtain ⟨hversion, hcount, hbits⟩ := hstrict
    obtain ⟨date, hrep, hdate⟩ := haccepted.date_field
    rcases haccepted.version_eq with rfl | rfl
    · match parts, hcount with
      | [part0, part1, part2, part3, part4, part5], _ =>
        obtain rfl := Option.some.inj hversion
        obtain rfl := Option.some.inj hdate
        exact ⟨date, part2, part3, part4, part5, hrep,
          (List.forall_mem_cons.mp (List.forall_mem_cons.mp hfree).2).2, .inl hjoin.symm⟩
    · match parts, hcount with
      | [part0, part1, part2, part3, part4, part5, part6], _ =>
        obtain rfl := Option.some.inj hversion
        obtain rfl := Option.some.inj hdate
        obtain ⟨part, x, hpart, hx⟩ := hbits rfl
        obtain rfl := Option.some.inj hpart
        obtain ⟨part, y, n, hpart, hy, hrange⟩ := haccepted.bits_field rfl
        obtain rfl := Option.some.inj hpart
        obtain rfl := eq_of_stoi hx (stoi_iff.mpr ⟨hy, hrange⟩)
        exact ⟨date, part3, part4, part5, part6, hrep, (List.forall_mem_cons.mp
          (List.forall_mem_cons.mp (List.forall_mem_cons.mp hfree).2).2).2,
          .inr ⟨part1, y, hx, hrange, hjoin.symm⟩⟩

/-- **On which texts `Parse` is strict**: it returns exactly for a token as it is meant to be, and
throws an error of kind `Invalid` for every other text, unless the text is a lenient one.

**Proof sketch.** `Parse` returns for the accepted texts (`parse_ok_iff`) and throws no other error
(`parse_cases`). The well-formed texts are the accepted ones that are not loose (`wellFormed_iff`),
where a text is accepted with one version only. -/
theorem parse_strict_iff (t : Str) :
    (((∃ h, parse t = .ok h) ↔ WellFormed t) ∧
      (¬ WellFormed t → ∃ message, parse t = .error (.invalid message))) ↔ ¬ Lenient t := by
  constructor
  · rintro ⟨hiff, -⟩ ⟨version, haccepted, hloose⟩
    have hwell := hiff.mp ((parse_ok_iff t).mpr ⟨version, haccepted⟩)
    obtain ⟨version', haccepted', hstrict⟩ := (wellFormed_iff t).mp hwell
    obtain rfl := haccepted.version_unique haccepted'
    exact hstrict hloose
  · intro hlenient
    have hiff : (∃ h, parse t = .ok h) ↔ WellFormed t := by
      rw [parse_ok_iff, wellFormed_iff]
      constructor
      · rintro ⟨version, haccepted⟩
        exact ⟨version, haccepted, fun hloose => hlenient ⟨version, haccepted, hloose⟩⟩
      · rintro ⟨version, haccepted, -⟩
        exact ⟨version, haccepted⟩
    refine ⟨hiff, fun hill => ?_⟩
    rcases parse_cases t with ⟨version, hreads⟩ | herror
    · exact absurd (hiff.mp ((parse_ok_iff t).mpr ⟨version, accepted_iff_reads.mpr hreads⟩)) hill
    · exact herror

/-- Bits with a letter after them are accepted. -/
theorem trailing_bits_accepted :
    ¬ ∀ t, ((∃ h, parse t = .ok h) ↔ WellFormed t) ∧
      (¬ WellFormed t → ∃ message, parse t = .error (.invalid message)) := by
  intro hall
  have hparse : ∃ h, parse (str "1:5x:240229:r::a:b") = .ok h := by
    refine (parse_ok_iff _).mpr ⟨1, .inr rfl, ⟨[], str "1", by decide, by simp, decimal_toText 1⟩,
      by decide, fun _ => ⟨str "5x", 5, 1, by decide, strtol_iff.mp (by decide), by decide⟩,
      ⟨2024, 2, 29⟩, ⟨by decide, by decide, by decide⟩, by decide⟩
  obtain ⟨date, resource, ext, rand, counter, hrep, hfree, htoken | ⟨bits, x, hbits, hx, htoken⟩⟩ :=
    (hall _).1.mp hparse
  · have hhead : (str "1:5x:240229:r::a:b").head? = some 48 := htoken ▸ rfl
    exact absurd hhead (by decide)
  · have hsplit := congrArg (fun t => splitOn t 58) htoken
    beta_reduce at hsplit
    rw [splitOn_intercalate (List.cons_ne_nil _ _) (List.forall_mem_cons.mpr ⟨by decide,
      List.forall_mem_cons.mpr ⟨colon_not_mem_decimal hbits,
        List.forall_mem_cons.mpr ⟨colon_not_mem_fmtYyMmDd date, hfree⟩⟩⟩)] at hsplit
    have hsecond := congrArg (·[1]?) hsplit
    have hbitsEq : bits = str "5x" := (Option.some.inj hsecond).symm
    have hwhole := strtol_of_decimal hbits
    rw [hbitsEq] at hwhole
    have hlength : some 1 = some 2 := congrArg (Option.map Prod.snd) hwhole
    exact absurd hlength (by decide)

/-! ## What a token is worth -/

/-- `IsValidFor` counts the zero bits of the digest again, whatever the token claims. -/
lemma isValidFor_eq_true {h : HashCash} {actual : ℤ} (hactual : sha1Bits h.token = .ok actual)
    (resource : Str) (minBits : ℤ) :
    h.isValidFor resource minBits = .ok true ↔ h.resource = resource ∧ minBits ≤ actual := by
  unfold isValidFor
  by_cases hresource : h.resource = resource
  · rw [if_pos hresource, computedBits, hactual, Outcome.ok_bind, Except.ok.injEq,
      decide_eq_true_eq]
    exact (and_iff_right hresource).symm
  · rw [if_neg hresource]
    simp [hresource]

/-- A text of version 1, for a resource, whose digest begins with `minBits` zero bits though its
second field claims fewer. -/
structure Underclaims (token resource : Str) (minBits : ℤ) : Prop where
  version_read : ∃ part, (splitOn token 58)[0]? = some part ∧ stoi part = .ok (1, part.length)
  resource_eq : (splitOn token 58)[3]? = some resource
  claim_lt : ∃ part claimed n, (splitOn token 58)[1]? = some part ∧
    stoi part = .ok (claimed, n) ∧ claimed < minBits
  le_actual : ∃ actual, sha1Bits token = .ok actual ∧ minBits ≤ actual

/-- `Underclaims` of a text that is read. -/
lemma underclaims_iff {token resource extStr : Str} {version bits actual : ℤ}
    {date : YearMonthDay} (h : Reads (splitOn token 58) version bits date resource extStr)
    (hactual : sha1Bits token = .ok actual) (resource' : Str) (minBits : ℤ) :
    Underclaims token resource' minBits ↔
      version = 1 ∧ resource = resource' ∧ bits < minBits ∧ minBits ≤ actual := by
  obtain ⟨part, hpart, hread⟩ := h.version_read
  have hbits := h.bits_read
  have hresource := h.resource_eq
  constructor
  · rintro ⟨⟨part', hpart', hread'⟩, hresource', ⟨claim, claimed, n, hclaim, hclaimed, hlt⟩,
      actual', hactual', hle⟩
    obtain rfl := Option.some.inj (hpart.symm.trans hpart')
    obtain rfl : version = 1 := (Prod.mk.inj (Except.ok.inj (hread.symm.trans hread'))).1
    obtain rfl : resource = resource' := Option.some.inj (hresource.symm.trans hresource')
    rw [if_pos rfl] at hbits
    obtain ⟨claim', m, hclaim', hbits⟩ := hbits
    obtain rfl := Option.some.inj (hclaim.symm.trans hclaim')
    obtain rfl : claimed = bits := (Prod.mk.inj (Except.ok.inj (hclaimed.symm.trans hbits))).1
    obtain rfl : actual = actual' := Except.ok.inj (hactual.symm.trans hactual')
    exact ⟨rfl, rfl, hlt, hle⟩
  · rintro ⟨rfl, rfl, hlt, hle⟩
    rw [if_pos rfl] at hbits
    obtain ⟨claim, n, hclaim, hbits⟩ := hbits
    exact ⟨⟨part, hpart, hread⟩, hresource, ⟨claim, bits, n, hclaim, hbits, hlt⟩, actual, hactual,
      hle⟩

/-- **When the check agrees with the value**: exactly when the token does not underclaim.

**Proof sketch.** The check compares the bits asked for with the zero bits of the digest
(`isValidFor_eq_true`), the value is their number in version 0 and at most the claim in version 1
(`parse_eq_ok`). They differ for what lies above the claim and not above the digest's bits, and
`underclaims_iff` reads this off the fields. -/
theorem isValidFor_iff_value {token : Str} {h : HashCash} (hparse : parse token = .ok h)
    (resource : Str) (minBits : ℤ) :
    (h.isValidFor resource minBits = .ok true ↔ h.resource = resource ∧ minBits ≤ h.value) ↔
      ¬ Underclaims token resource minBits := by
  obtain ⟨version, bits, date, resource', extStr, actual, hreads, hactual, rfl⟩ :=
    parse_eq_ok.mp hparse
  rw [isValidFor_eq_true hactual, underclaims_iff hreads hactual]
  rcases hreads.version_eq with rfl | rfl
  · simp
  · by_cases hresource : resource' = resource
    · simp only [hresource, true_and, if_neg one_ne_zero, le_min_iff, not_and, not_le]
      omega
    · simp [hresource]

/-- `isValidFor_iff_value` for a token that claims as many bits as are asked for. -/
theorem isValidFor_iff_value_claimed : ∃ h,
    parse (str "1:8:240229:me@example.org::a:221") = .ok h ∧
      ((h.isValidFor (str "me@example.org") 8 = .ok true ↔
          h.resource = str "me@example.org" ∧ 8 ≤ h.value) ↔
        ¬ Underclaims (str "1:8:240229:me@example.org::a:221") (str "me@example.org") 8) := by
  obtain ⟨h, hparse⟩ := (parse_ok_iff (str "1:8:240229:me@example.org::a:221")).mpr
    ⟨1, .inr rfl, ⟨[], str "1", by decide, by simp, decimal_toText 1⟩, by decide,
      fun _ => ⟨str "8", 8, 1, by decide, strtol_iff.mp (by decide), by decide⟩,
      ⟨2024, 2, 29⟩, ⟨by decide, by decide, by decide⟩, by decide⟩
  exact ⟨h, hparse, isValidFor_iff_value hparse (str "me@example.org") 8⟩

/-- A token that claims one bit passes the check for eight. -/
theorem isValidFor_beyond_claim :
    ¬ ∀ (token : Str) (h : HashCash), parse token = .ok h → ∀ (resource : Str) (minBits : ℤ),
      (h.isValidFor resource minBits = .ok true ↔ h.resource = resource ∧ minBits ≤ h.value) := by
  intro hall
  have hreads : Reads (splitOn (str "1:1:240229:me@example.org::a:221") 58) 1 1 ⟨2024, 2, 29⟩
      (str "me@example.org") [] :=
    ⟨.inr rfl, ⟨str "1", by decide, by decide⟩, by decide, ⟨str "1", 1, by decide, by decide⟩,
      by decide, ⟨by decide, by decide, by decide⟩, by decide, by decide⟩
  have hactual : sha1Bits (str "1:1:240229:me@example.org::a:221") = .ok 8 := by decide +kernel
  have hiff := hall _ _ (parse_of_reads hreads hactual) (str "me@example.org") 8
  have hle := (hiff.mp ((isValidFor_eq_true hactual _ _).mpr ⟨rfl, le_rfl⟩)).2
  exact absurd hle (by decide)

/-! ## The threshold -/

/-- The `candidate` of `Generate` in round `i`. The counter is increased before it is used. -/
def candidate (stem : Str) (counter : UInt64) (i : ℕ) : Str :=
  stem ++ hexText (counter + UInt64.ofNat (i + 1)).toNat

/-- **The loop finds the first candidate with the proof of work.** -/
theorem generateLoop_eq (stem : Str) {bits : ℤ} (hbits : bits ≤ kHashBits) (counter : UInt64)
    (rounds : ℕ) : generateLoop stem bits counter rounds =
      .ok (((List.range rounds).map (candidate stem counter)).find? (ProofOfWork · bits)) := by
  induction rounds generalizing counter with
  | zero => rfl
  | succ rounds ih =>
    have hfirst : stem ++ hexText (counter + 1).toNat = candidate stem counter 0 := rfl
    have hrest : candidate stem counter ∘ Nat.succ = candidate stem (counter + 1) := by
      funext i
      rw [Function.comp_apply, candidate, candidate, Nat.succ_eq_add_one, Nat.add_comm (i + 1) 1,
        UInt64.ofNat_add, ← UInt64.add_assoc]
      rfl
    obtain ⟨actual, hactual, hiff⟩ := sha1Bits_spec (candidate stem counter 0)
    rw [generateLoop, hfirst, hactual, Outcome.ok_bind, List.range_succ_eq_map, List.map_cons,
      List.map_map, hrest, List.find?_cons]
    by_cases hwork : ProofOfWork (candidate stem counter 0) bits
    · rw [if_pos ((hiff bits hbits).mpr hwork), decide_eq_true hwork]
    · rw [if_neg ((hiff bits hbits).not.mpr hwork), decide_eq_false hwork]
      exact ih (counter + 1)

/-- **The proof of work is a threshold on the digest**: data of less than `2 ^ 28` bytes has `k`
leading zero bits exactly when its number is below `2` to the power of the bits that are left;
`IsValidFor` is exactly this test on the digest of the token, and `Generate` returns the first of
its candidates that passes it.

**Proof sketch.** The loop counts the leading zeros of the bit string of the data
(`leadingZeroLoop_eq`), and a bit string begins with `k` zeros exactly when its number is that
small (`BitString.le_leadingZeros_iff`). A digest has as many bits as `kHashBits` says, and the
search of `Generate` goes on for as long as the test fails (`generateLoop_eq`). -/
theorem leadingZeroBits_threshold :
    (∀ data : Bytes, data.length < 2 ^ 28 → ∃ total, leadingZeroBits data = .ok total ∧
      ∀ k : ℤ, k ≤ 8 * data.length →
        (k ≤ total ↔ bigEndian data < 2 ^ (8 * data.length - k).toNat)) ∧
    ∀ bits : ℤ, bits ≤ kHashBits →
      (∀ (h : HashCash) (resource : Str), h.isValidFor resource bits =
        .ok (decide (h.resource = resource ∧ ProofOfWork h.token bits))) ∧
      ∀ (d : MintDraw) (rounds : ℕ) (tokenPrefix : Str), generate d rounds tokenPrefix bits =
        .ok (((List.range rounds).map (candidate
          (tokenPrefix ++ d.rndBytes.val.flatMap hexByte ++ str ":") d.counter)).find?
            (ProofOfWork · bits)) := by
  refine ⟨fun data hdata => leadingZeroBits_spec hdata, fun bits hbits => ⟨fun h resource => ?_,
    fun d rounds tokenPrefix => generateLoop_eq _ hbits _ _⟩⟩
  obtain ⟨actual, hactual, hiff⟩ := sha1Bits_spec h.token
  unfold isValidFor
  by_cases hresource : h.resource = resource
  · rw [if_pos hresource, computedBits, hactual, Outcome.ok_bind]
    simp only [hiff bits hbits, hresource, true_and]
  · simp [hresource]

/-- `leadingZeroBits_threshold` for two zero bytes and half of a third. -/
theorem leadingZeroBits_threshold_twenty :
    ∃ total, leadingZeroBits [0, 0, 0x0f] = .ok total ∧
      (20 ≤ total ↔ bigEndian [0, 0, 0x0f] < 2 ^ 4) := by
  obtain ⟨total, htotal, hiff⟩ := leadingZeroBits_threshold.1 [0, 0, 0x0f] (by decide)
  exact ⟨total, htotal, hiff 20 (by decide)⟩

end RaCommon.HashCash
