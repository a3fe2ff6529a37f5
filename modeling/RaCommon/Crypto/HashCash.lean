import RaCommon.Crypto.Pbkdf2
import RaCommon.Library.OrderedMap
import RaCommon.Runtime.Text

set_option relaxedAutoImplicit false
set_option autoImplicit false

/-!
# Hashcash tokens (`crypto/hash_cash.hpp`)

A token is a text of fields with colons between them: version, bits (in version 1 only), date,
resource, extensions, a random text and a counter, which `MintWith` increases until the SHA-1 digest
of the text begins with enough zero bits. Minting writes the fields with one set of functions and
parsing reads them with another.

## Main definitions

* `RaCommon.YearMonthDay` — `std::chrono::year_month_day`, with `ok`.
* `RaCommon.HashCash` — the class, with `mintWith`, `parse`, `computedBits` and `isValidFor`.
* `RaCommon.HashCash.serializeExtensions`, `RaCommon.HashCash.deserializeExtensions`,
  `RaCommon.HashCash.fmtYyMmDd`, `RaCommon.HashCash.parseYyMmDd` — two of the fields.

## Main results

* `RaCommon.HashCash.splitOn_intercalate`, `RaCommon.HashCash.intercalate_splitOn` — the splitter
  takes apart what is joined with the delimiter.
* `RaCommon.leadingZeroBits_spec` — leading zero bits are a threshold on the big-endian number.
* `RaCommon.HashCash.deserialize_serialize` — extensions are read back.
* `RaCommon.HashCash.extensions_round_trip` — which maps are accepted, and which of them come back.
* `RaCommon.HashCash.parseYyMmDd_iff` — the dates that are read, and from which texts.
-/

namespace RaCommon

/-! ## Dates -/

/-- `std::chrono::year_month_day`. -/
structure YearMonthDay where
  year : ℤ
  month : ℕ
  day : ℕ
  deriving DecidableEq, Repr

namespace YearMonthDay

/-- `std::chrono::year::is_leap`. -/
def isLeap (year : ℤ) : Bool := year % 4 = 0 && (year % 100 ≠ 0 || year % 400 = 0)

/-- The number of days of a month. -/
def lastDay (year : ℤ) (month : ℕ) : ℕ :=
  if month = 2 then if isLeap year then 29 else 28
  else if month = 4 ∨ month = 6 ∨ month = 9 ∨ month = 11 then 30
  else 31

/-- `std::chrono::year_month_day::ok`. -/
def ok (d : YearMonthDay) : Bool :=
  -32767 ≤ d.year && d.year ≤ 32767 && 1 ≤ d.month && d.month ≤ 12 && 1 ≤ d.day &&
    d.day ≤ lastDay d.year d.month

/-- No month has more than 31 days. -/
lemma lastDay_le (year : ℤ) (month : ℕ) : lastDay year month ≤ 31 := by
  unfold lastDay
  split_ifs <;> omega

/-- The months and days of a calendar date. -/
lemma le_of_ok {d : YearMonthDay} (h : d.ok = true) : d.month ≤ 12 ∧ d.day ≤ 31 := by
  have hlast := lastDay_le d.year d.month
  simp only [ok, Bool.and_eq_true, decide_eq_true_eq] at h
  omega

end YearMonthDay

/-! ## Leading zero bits -/

/-- `std::bit_width`. -/
def bitWidth (n : ℕ) : ℕ := if n = 0 then 0 else n.log2 + 1

/-- The loop of `LeadingZeroBits`, with `total` as its variable. -/
def leadingZeroLoop (total : ℤ) : Bytes → Outcome ℤ
  | [] => .ok total
  | byte :: data =>
    if byte = 0 then do leadingZeroLoop (← checkInt (total + 8)) data
    else checkInt (total + (8 - bitWidth byte.toNat))

/-- `LeadingZeroBits`. -/
def leadingZeroBits (data : Bytes) : Outcome ℤ := leadingZeroLoop 0 data

/-- The number of which some bytes are the big-endian digits. -/
def bigEndian (data : Bytes) : ℕ := Numeral.value 256 (data.map UInt8.toNat)

/-- The bits of the bytes are those of their number. -/
lemma toNat_ofBytes (data : Bytes) :
    BitString.toNat (BitString.ofBytes data) = bigEndian data := by
  induction data using List.reverseRecOn with
  | nil => rfl
  | append_singleton data byte ih =>
    rw [BitString.ofBytes_append, BitString.toNat_append, ih, BitString.toNat_ofBytes_cons,
      BitString.length_ofBytes, bigEndian, bigEndian, List.map_append, List.map_singleton,
      Numeral.value_concat]
    simp
    omega

/-- `bit_width` is the number of binary digits. -/
lemma bitWidth_eq_size (n : ℕ) : bitWidth n = n.size := by
  unfold bitWidth
  split_ifs with hn
  · rw [hn, Nat.size_zero]
  · have hlow := Nat.lt_size.mpr (Nat.log2_self_le hn)
    have hhigh := Nat.size_le.mpr (Nat.lt_log2_self (n := n))
    omega

/-- **The loop counts the leading zero bits of the whole data**, where `int` can hold them.

**Proof sketch.** A zero byte is eight zero bits, behind which the count goes on; the leading zeros
of another byte are those above its highest bit, and what is behind it does not matter. -/
theorem leadingZeroLoop_eq (data : Bytes) {total : ℤ} (h0 : 0 ≤ total)
    (h : total + 8 * data.length < 2 ^ 31) : leadingZeroLoop total data =
      .ok (total + BitString.leadingZeros (BitString.ofBytes data)) := by
  induction data generalizing total with
  | nil => simp [leadingZeroLoop]
  | cons byte data ih =>
    rw [List.length_cons] at h
    push_cast at h
    have hbyte := byte.toNat_lt
    rw [BitString.ofBytes_cons, BitString.leadingZeros_append, BitString.toNat_ofNat,
      Nat.mod_eq_of_lt hbyte, BitString.length_ofNat]
    by_cases hzero : byte = 0
    · subst hzero
      rw [leadingZeroLoop, if_pos rfl, checkInt_eq_ok (by omega), Outcome.ok_bind,
        ih (by omega) (by omega), if_pos UInt8.toNat_zero, add_assoc]
      rfl
    · have hne : byte.toNat ≠ 0 := fun hnat => hzero (UInt8.toNat_inj.mp hnat)
      have hsize : byte.toNat.size ≤ 8 := Nat.size_le.mpr hbyte
      rw [leadingZeroLoop, if_neg hzero, bitWidth_eq_size, checkInt_eq_ok (by omega), if_neg hne,
        BitString.leadingZeros_ofNat hbyte]
      push_cast [hsize]
      rfl

/-- **The leading zero bits are a threshold on the number**: the data has `k` of them exactly when
its number is below `2` to the power of the bits that are left, whatever the sign of `k`. -/
theorem leadingZeroBits_spec {data : Bytes} (h : data.length < 2 ^ 28) :
    ∃ total, leadingZeroBits data = .ok total ∧ ∀ k : ℤ, k ≤ 8 * data.length →
      (k ≤ total ↔ bigEndian data < 2 ^ (8 * data.length - k).toNat) := by
  refine ⟨_, leadingZeroLoop_eq data le_rfl (by omega), fun k hk => ?_⟩
  rw [zero_add, ← toNat_ofBytes]
  by_cases hneg : k < 0
  · -- fewer than no zero bits: the number has room in its own bits
    have hlt := BitString.toNat_lt (BitString.ofBytes data)
    have hpow : 2 ^ (BitString.ofBytes data).length ≤ 2 ^ (8 * (data.length : ℤ) - k).toNat := by
      refine Nat.pow_le_pow_right (by omega) ?_
      rw [BitString.length_ofBytes]
      omega
    exact iff_of_true (by omega) (by omega)
  · obtain ⟨n, rfl⟩ := Int.eq_ofNat_of_zero_le (not_lt.mp hneg)
    have hn : n ≤ (BitString.ofBytes data).length := by
      rw [BitString.length_ofBytes]
      omega
    have hrest : (8 * (data.length : ℤ) - n).toNat = (BitString.ofBytes data).length - n := by
      rw [BitString.length_ofBytes]
      omega
    rw [Nat.cast_le, BitString.le_leadingZeros_iff hn, hrest]

/-! ## The class -/

/-- `std::map<std::string, std::vector<std::string>>`. -/
abbrev Extensions := OrderedMap Str (List Str)

/-- `HashCash`. -/
structure HashCash where
  token : Str
  value : ℤ
  resource : Str
  date : YearMonthDay
  version : ℤ
  extensions : Extensions

namespace HashCash

/-- `kHashBits`. -/
def kHashBits : ℤ := 160

/-- `Sha1Bits`. -/
def sha1Bits (token : Str) : Outcome ℤ := do leadingZeroBits (← Sha.sha1 token)

/-- The loop of `SplitOn`, with `cur` as its variable. -/
def splitLoop (delim : UInt8) (cur : Str) : Str → List Str
  | [] => [cur]
  | c :: s => if c = delim then cur :: splitLoop delim [] s else splitLoop delim (cur ++ [c]) s

/-- `SplitOn`: unlike the function of this name in `hash_util.hpp`, it always ends with a field. -/
def splitOn (s : Str) (delim : UInt8) : List Str := splitLoop delim [] s

/-- `s.find_first_of(chars) != npos`. -/
def containsAny (chars s : Str) : Bool := s.any (chars.contains ·)

/-- What `SerializeExtensions` makes of an entry. -/
def extensionPart (e : Str × List Str) : Outcome Str :=
  if containsAny (str ":;=") e.1 then
    .error (.invalid (str "illegal char in extension key: " ++ e.1))
  else if e.2 = [] then .ok e.1
  else
    match e.2.find? (containsAny (str ":;,")) with
    | some v => .error (.invalid (str "illegal char in extension value: " ++ v))
    | none => .ok (e.1 ++ str "=" ++ (str ",").intercalate e.2)

/-- `SerializeExtensions`. -/
def serializeExtensions (ext : Extensions) : Outcome Str := do
  let parts ← ext.entries.mapM extensionPart
  .ok ((str ";").intercalate parts)

/-- What `DeserializeExtensions` assigns for an item: `'='` ends the key. -/
def extensionEntry (item : Str) : Str × List Str :=
  match item.idxOf? 61 with
  | none => (item, [])
  | some eq => (item.take eq, splitOn (item.drop (eq + 1)) 44)

/-- `DeserializeExtensions`. -/
def deserializeExtensions (text : Str) : Extensions :=
  if text = [] then .empty
  else (splitOn text 59).foldl (fun out item =>
    out.set (extensionEntry item).1 (extensionEntry item).2) .empty

/-- `"%02d"`, or `"%02u"`. -/
def pad2 (x : ℤ) : Str := if (toText x).length < 2 then 48 :: toText x else toText x

/-- `FmtYyMmDd`. The buffer of `snprintf` has room for six characters; `%` rounds towards zero, so
that the year field of an early year begins with a minus sign. -/
def fmtYyMmDd (d : YearMonthDay) : Str :=
  (pad2 (d.year.tmod 100) ++ pad2 d.month ++ pad2 d.day).take 6

/-- `ParseYyMmDd`. -/
def parseYyMmDd (s : Str) : Outcome YearMonthDay :=
  if s.length ≠ 6 ∨ ¬ s.all isDigit then .error (.invalid (str "bad hashcash date: " ++ s))
  else do
    let yy ← stoi (s.take 2)
    let mm ← stoi ((s.drop 2).take 2)
    let dd ← stoi ((s.drop 4).take 2)
    let date : YearMonthDay := ⟨2000 + yy.1, mm.1.toNat, dd.1.toNat⟩
    if !date.ok then .error (.invalid (str "bad hashcash date: " ++ s)) else .ok date

/-- What `Generate` draws: the bytes of the random text, and the first counter. -/
structure MintDraw where
  rndBytes : {b : Bytes // b.length = 8}
  counter : UInt64

/-- The loop of `Generate`, for at most `rounds` rounds. -/
def generateLoop (stem : Str) (bits : ℤ) (counter : UInt64) : ℕ → Outcome (Option Str)
  | 0 => .ok none
  | rounds + 1 => do
    let counter := counter + 1
    let candidate := stem ++ hexText counter.toNat
    if bits ≤ (← sha1Bits candidate) then .ok (some candidate)
    else generateLoop stem bits counter rounds

/-- `Generate`, with what it draws; no result when the loop has not ended after `rounds` rounds. -/
def generate (d : MintDraw) (rounds : ℕ) (tokenPrefix : Str) (bits : ℤ) : Outcome (Option Str) :=
  generateLoop (tokenPrefix ++ d.rndBytes.val.flatMap hexByte ++ str ":") bits d.counter rounds

/-- The part of a token that `MintWith` writes before the random text. -/
def mintPrefix (version bits : ℤ) (dateStr resource extStr : Str) : Str :=
  if version = 0 then str "0:" ++ dateStr ++ str ":" ++ resource ++ str ":" ++ extStr ++ str ":"
  else str "1:" ++ toText bits ++ str ":" ++ dateStr ++ str ":" ++ resource ++ str ":" ++
    extStr ++ str ":"

/-- `version == 0 ? Sha1Bits(token) : bits`. -/
def mintValue (version bits : ℤ) (token : Str) : Outcome ℤ :=
  if version = 0 then sha1Bits token else .ok bits

/-- `MintWith`, with what it draws; no result when the search has not ended after `rounds`
rounds. -/
def mintWith (d : MintDraw) (rounds : ℕ) (resource : Str) (extensions : Extensions)
    (date : YearMonthDay) (bits version : Int32) : Outcome (Option HashCash) :=
  if 1 < version.toInt then
    .error (.invalid (str "only hashcash versions 0 and 1 are supported"))
  else if kHashBits < bits.toInt then
    .error (.invalid (str "value must be between 0 and 160"))
  else if resource.contains 58 then
    .error (.invalid (str "resource may not contain a colon"))
  else do
    let extStr ← serializeExtensions extensions
    let tokenPrefix := mintPrefix version.toInt bits.toInt (fmtYyMmDd date) resource extStr
    match ← generate d rounds tokenPrefix bits.toInt with
    | none => .ok none
    | some token =>
      let value ← mintValue version.toInt bits.toInt token
      .ok (some ⟨token, value, resource, date, version.toInt, extensions⟩)

/-- `Mint`, on the day given. -/
def mint (d : MintDraw) (rounds : ℕ) (today : YearMonthDay) (resource : Str) (bits : Int32) :
    Outcome (Option HashCash) :=
  mintWith d rounds resource .empty today bits 1

/-- `parts.at(i)`. -/
def partAt (parts : List Str) (i : ℕ) : Outcome Str :=
  match parts[i]? with
  | some part => .ok part
  | none => .error .outOfRange

/-- `try { x } catch (...) { throw RaException::Invalid(message); }`. -/
def orInvalid {α : Type} (message : Str) (x : Outcome α) : Outcome α :=
  match x with
  | .ok a => .ok a
  | .error _ => .error (.invalid message)

/-- The version `Parse` reads: `std::stoi` must read all of the first field. -/
def parseVersion (parts : List Str) : Outcome ℤ :=
  orInvalid (str "bad hashcash version") do
    let part ← partAt parts 0
    let r ← stoi part
    if r.2 ≠ part.length then .error .invalidArgument else .ok r.1

/-- The bits `Parse` reads in version 1: `std::stoi` must find a number. -/
def parseBits (version : ℤ) (parts : List Str) : Outcome ℤ :=
  if version = 1 then
    orInvalid (str "bad hashcash bits") do .ok (← stoi (← partAt parts 1)).1
  else .ok 0

/-- The number of fields `Parse` expects. -/
def expectedParts (version : ℤ) : ℤ := if version = 0 then 6 else if version = 1 then 7 else -1

/-- `Parse`. The number of fields is cast to `int`. -/
def parse (token : Str) : Outcome HashCash := do
  let parts := splitOn token 58
  let version ← parseVersion parts
  let expected := expectedParts version
  if expected = -1 then .error (.invalid (str "only hashcash versions 0 and 1 are supported"))
  else if (Int32.ofNat parts.length).toInt ≠ expected then
    .error (.invalid (str "improperly formed hashcash"))
  else do
    let claimedBits ← parseBits version parts
    let idx := if version = 1 then 2 else 1
    let date ← parseYyMmDd (← partAt parts idx)
    let resource ← partAt parts (idx + 1)
    let extensions := deserializeExtensions (← partAt parts (idx + 2))
    let actual ← sha1Bits token
    let value := if version = 0 then actual else min actual claimedBits
    .ok ⟨token, value, resource, date, version, extensions⟩

/-- `ComputedBits`. -/
def computedBits (h : HashCash) : Outcome ℤ := sha1Bits h.token

/-- `IsValidFor`. -/
def isValidFor (h : HashCash) (resource : Str) (minBits : ℤ) : Outcome Bool :=
  if h.resource = resource then do .ok (decide (minBits ≤ (← h.computedBits))) else .ok false

/-! ## Splitting -/

/-- The splitter is that of the standard library of lists. -/
lemma splitOn_eq (s : Str) (delim : UInt8) : splitOn s delim = s.splitOn delim := by
  have hloop : ∀ cur, splitLoop delim cur s =
      List.splitOnPPrepend (· == delim) s cur.reverse := by
    induction s with
    | nil => simp [splitLoop]
    | cons c s ih =>
      intro cur
      by_cases hc : c = delim
      · rw [splitLoop, if_pos hc, List.splitOnPPrepend_cons_pos (by simpa using hc), ih,
          List.reverse_reverse]
        rfl
      · rw [splitLoop, if_neg hc, List.splitOnPPrepend_cons_neg (by simpa using hc), ih,
          List.reverse_append]
        rfl
  exact hloop []

/-- What is joined is taken apart. -/
theorem splitOn_intercalate {parts : List Str} {delim : UInt8} (hne : parts ≠ [])
    (h : ∀ part ∈ parts, delim ∉ part) : splitOn ([delim].intercalate parts) delim = parts := by
  rw [splitOn_eq, List.splitOn_intercalate delim h hne]

/-- What is taken apart is joined. -/
theorem intercalate_splitOn (s : Str) (delim : UInt8) :
    [delim].intercalate (splitOn s delim) = s := by
  rw [splitOn_eq, List.intercalate_splitOn]

/-- No field has the delimiter in it. -/
lemma not_mem_of_mem_splitOn {s part : Str} {delim : UInt8} (h : part ∈ splitOn s delim) :
    delim ∉ part := by
  have hloop : ∀ cur : Str, delim ∉ cur → ∀ part ∈ splitLoop delim cur s, delim ∉ part := by
    clear h
    induction s with
    | nil =>
      intro cur hcur part hpart
      rwa [List.mem_singleton.mp hpart]
    | cons c s ih =>
      intro cur hcur part hpart
      by_cases hc : c = delim
      · rw [splitLoop, if_pos hc] at hpart
        rcases List.mem_cons.mp hpart with rfl | hpart
        · exact hcur
        · exact ih [] List.not_mem_nil part hpart
      · rw [splitLoop, if_neg hc] at hpart
        refine ih (cur ++ [c]) ?_ part hpart
        intro hmem
        rcases List.mem_append.mp hmem with hmem | hmem
        · exact hcur hmem
        · exact hc (List.mem_singleton.mp hmem).symm
  exact hloop [] List.not_mem_nil part h

/-! ## Extensions -/

/-- A text with none of some characters. -/
lemma containsAny_eq_false_iff {chars s : Str} :
    containsAny chars s = false ↔ ∀ c ∈ s, c ∉ chars := by
  simp [containsAny]

/-- The characters of a joined text are the separator and those of the parts. -/
lemma mem_intercalate {sep c : UInt8} {parts : List Str} (h : c ∈ [sep].intercalate parts) :
    c = sep ∨ ∃ part ∈ parts, c ∈ part := by
  by_cases hc : c = sep
  · exact .inl hc
  · exact .inr ((Separated.mem_intercalate hc).mp h)

/-- Where a character first occurs. -/
lemma idxOf?_append_cons {c : UInt8} {s : Str} (h : c ∉ s) (rest : Str) :
    (s ++ c :: rest).idxOf? c = some s.length := by
  have hnone : s.findIdx? (· == c) = none := List.idxOf?_eq_none_iff.mpr h
  rw [List.idxOf?, List.findIdx?_append, hnone]
  simp [List.findIdx?_cons]

/-- **An entry is read back** from its part, which has no character that separates parts or
fields. -/
theorem extensionPart_spec {e : Str × List Str} {part : Str} (h : extensionPart e = .ok part) :
    extensionEntry part = e ∧ 58 ∉ part ∧ 59 ∉ part := by
  obtain ⟨key, values⟩ := e
  unfold extensionPart at h
  split at h
  · cases h
  · next hkey =>
    have hkey := containsAny_eq_false_iff.mp (Bool.eq_false_iff.mpr hkey)
    have heq : (61 : UInt8) ∉ key := fun hmem => hkey 61 hmem (by decide)
    have hcolon : (58 : UInt8) ∉ key := fun hmem => hkey 58 hmem (by decide)
    have hsemicolon : (59 : UInt8) ∉ key := fun hmem => hkey 59 hmem (by decide)
    split at h
    · next hvalues =>
      obtain rfl := Except.ok.inj h
      obtain rfl : values = [] := hvalues
      refine ⟨?_, hcolon, hsemicolon⟩
      rw [extensionEntry, List.idxOf?_eq_none_iff.mpr heq]
    · next hvalues =>
      split at h
      · cases h
      · next hfind =>
        obtain rfl := Except.ok.inj h
        have hfree := fun v hv => containsAny_eq_false_iff.mp
          (Bool.eq_false_iff.mpr (List.find?_eq_none.mp hfind v hv))
        have hpart : key ++ str "=" ++ (str ",").intercalate values =
            key ++ 61 :: [44].intercalate values := by
          rw [List.append_assoc]
          rfl
        have hjoined : ∀ c : UInt8, c ≠ 61 → c ≠ 44 → c ∉ key → c ∈ str ":;," →
            c ∉ key ++ 61 :: [44].intercalate values := by
          intro c hne hcomma hckey hc hmem
          rcases List.mem_append.mp hmem with hmem | hmem
          · exact hckey hmem
          · rcases List.mem_cons.mp hmem with hmem | hmem
            · exact hne hmem
            · rcases mem_intercalate hmem with hmem | ⟨v, hv, hmem⟩
              · exact hcomma hmem
              · exact hfree v hv c hmem hc
        rw [hpart]
        refine ⟨?_, hjoined 58 (by decide) (by decide) hcolon (by decide),
          hjoined 59 (by decide) (by decide) hsemicolon (by decide)⟩
        have hsplit : splitOn ([44].intercalate values) 44 = values :=
          splitOn_intercalate hvalues fun v hv hmem => hfree v hv 44 hmem (by decide)
        have hdrop : (key ++ 61 :: [44].intercalate values).drop (key.length + 1) =
            [44].intercalate values := by
          rw [← List.drop_drop, List.drop_left]
          rfl
        rw [extensionEntry, idxOf?_append_cons heq]
        simp only [List.take_left, hdrop, hsplit]

/-- The parts of a map's entries. -/
lemma extensionParts_spec {entries : List (Str × List Str)} {parts : List Str}
    (h : entries.mapM extensionPart = .ok parts) :
    parts.map extensionEntry = entries ∧ ∀ part ∈ parts, 58 ∉ part ∧ 59 ∉ part := by
  induction entries generalizing parts with
  | nil =>
    obtain rfl := Except.ok.inj h
    exact ⟨rfl, fun part hpart => absurd hpart List.not_mem_nil⟩
  | cons e entries ih =>
    rw [List.mapM_cons] at h
    obtain ⟨part, hpart, h⟩ := Outcome.bind_eq_ok.mp h
    obtain ⟨rest, hrest, h⟩ := Outcome.bind_eq_ok.mp h
    obtain rfl := Except.ok.inj h
    obtain ⟨hentry, hfree⟩ := extensionPart_spec hpart
    obtain ⟨hentries, hall⟩ := ih hrest
    refine ⟨by rw [List.map_cons, hentry, hentries], fun p hp => ?_⟩
    rcases List.mem_cons.mp hp with rfl | hp
    · exact hfree
    · exact hall p hp

/-- The map whose text is empty without being empty itself. -/
def Unmarked (ext : Extensions) : Prop := ext.entries = [([], [])]

/-- **Extensions are read back**, except the map with the empty key as its only entry and no values:
its text is empty, as that of the empty map. The text has no colon. -/
theorem deserialize_serialize {ext : Extensions} {text : Str}
    (h : serializeExtensions ext = .ok text) :
    58 ∉ text ∧ (deserializeExtensions text = ext ↔ ¬ Unmarked ext) := by
  obtain ⟨parts, hparts, h⟩ := Outcome.bind_eq_ok.mp h
  obtain rfl := Except.ok.inj h
  have hsep : str ";" = [59] := by decide
  obtain ⟨hentries, hfree⟩ := extensionParts_spec hparts
  rw [hsep]
  refine ⟨fun hmem => ?_, ?_⟩
  · rcases mem_intercalate hmem with hmem | ⟨part, hpart, hmem⟩
    · exact absurd hmem (by decide)
    · exact (hfree part hpart).1 hmem
  · by_cases hun : Unmarked ext
    · have hone : parts = [[]] := by
        rw [hun] at hparts
        exact (Except.ok.inj hparts).symm
      subst hone
      refine iff_of_false (fun hext => ?_) (not_not.mpr hun)
      rw [Unmarked, ← hext] at hun
      cases hun
    · refine iff_of_true ?_ hun
      by_cases hnil : parts = []
      · subst hnil
        exact OrderedMap.ext hentries
      · have hsplit : splitOn ([59].intercalate parts) 59 = parts :=
          splitOn_intercalate hnil fun part hpart => (hfree part hpart).2
        have htext : [59].intercalate parts ≠ [] := by
          intro htext
          rw [htext] at hsplit
          rw [← hsplit] at hentries
          exact hun hentries.symm
        have hfold := OrderedMap.foldl_set ext
        rw [← hentries, List.foldl_map] at hfold
        rw [deserializeExtensions, if_neg htext, hsplit]
        exact hfold

/-- A map without the characters that end a field, a part or a key in its keys, and without those
that end a field, a part or a value in its values. -/
def Legal (ext : Extensions) : Prop :=
  ∀ e ∈ ext.entries, (∀ c ∈ e.1, c ∉ str ":;=") ∧ ∀ v ∈ e.2, ∀ c ∈ v, c ∉ str ":;,"

/-- An entry has a part when its key and its values are legal. -/
lemma exists_extensionPart (e : Str × List Str) : (∃ part, extensionPart e = .ok part) ↔
    (∀ c ∈ e.1, c ∉ str ":;=") ∧ ∀ v ∈ e.2, ∀ c ∈ v, c ∉ str ":;," := by
  obtain ⟨key, values⟩ := e
  simp only [← containsAny_eq_false_iff]
  unfold extensionPart
  by_cases hkey : containsAny (str ":;=") key = true
  · simp [hkey]
  · rw [if_neg hkey]
    have hkey := Bool.eq_false_iff.mpr hkey
    by_cases hnil : values = []
    · simp [hnil, hkey]
    · rw [if_neg hnil]
      cases hfind : values.find? (containsAny (str ":;,")) with
      | none =>
        refine iff_of_true ⟨_, rfl⟩ ⟨hkey, fun v hv => ?_⟩
        exact Bool.eq_false_iff.mpr (List.find?_eq_none.mp hfind v hv)
      | some v =>
        refine iff_of_false (by simp) fun h => ?_
        have hv := h.2 v (List.mem_of_find?_eq_some hfind)
        rw [List.find?_some hfind] at hv
        cases hv

/-- **The maps that are accepted** are the legal ones. -/
theorem exists_serializeExtensions (ext : Extensions) :
    (∃ text, serializeExtensions ext = .ok text) ↔ Legal ext := by
  have hparts : ∀ entries : List (Str × List Str),
      (∃ parts, entries.mapM extensionPart = .ok parts) ↔
        ∀ e ∈ entries, ∃ part, extensionPart e = .ok part := by
    intro entries
    induction entries with
    | nil => exact iff_of_true ⟨[], rfl⟩ fun e he => absurd he List.not_mem_nil
    | cons e entries ih =>
      rw [List.mapM_cons, List.forall_mem_cons, ← ih, Outcome.exists_bind]
      simp only [Outcome.exists_bind, Outcome.pure_eq, Outcome.exists_ok, and_true,
        exists_and_right]
  unfold serializeExtensions
  rw [Outcome.exists_bind]
  simp only [Outcome.exists_ok, and_true, hparts, exists_extensionPart, Legal]

/-- **Which maps are accepted, and which of them come back**: `SerializeExtensions` returns for the
legal ones; its text has no colon, and `DeserializeExtensions` makes the map of it again unless the
empty key is the only one and has no values. The text of that map is the empty one, of which the
empty map is made. -/
theorem extensions_round_trip (ext : Extensions) :
    ((∃ text, serializeExtensions ext = .ok text) ↔ Legal ext) ∧
      ∀ text, serializeExtensions ext = .ok text → 58 ∉ text ∧
        (deserializeExtensions text = ext ↔ ¬ Unmarked ext) ∧
        (Unmarked ext → text = [] ∧ deserializeExtensions text = .empty) := by
  refine ⟨exists_serializeExtensions ext, fun text h => ?_⟩
  obtain ⟨hcolon, hback⟩ := deserialize_serialize h
  refine ⟨hcolon, hback, fun hun => ?_⟩
  rw [serializeExtensions, hun] at h
  obtain rfl := Except.ok.inj h
  exact ⟨rfl, rfl⟩

/-- A map with the empty key, a comma in a key and an empty value. -/
def emptyKeyExtensions : Extensions :=
  (OrderedMap.empty.set [] []).set (str "k,") [[], str "x=y"]

/-- `extensions_round_trip` for such a map. -/
theorem extensions_round_trip_empty_key :
    serializeExtensions emptyKeyExtensions = .ok (str ";k,=,x=y") ∧ 58 ∉ str ";k,=,x=y" ∧
      deserializeExtensions (str ";k,=,x=y") = emptyKeyExtensions := by
  have hser : serializeExtensions emptyKeyExtensions = .ok (str ";k,=,x=y") := by decide +kernel
  have hmarked : ¬ Unmarked emptyKeyExtensions := by
    rw [Unmarked]
    decide +kernel
  obtain ⟨hcolon, hback, -⟩ := (extensions_round_trip emptyKeyExtensions).2 _ hser
  exact ⟨hser, hcolon, hback.mpr hmarked⟩

/-! ## Dates in two-digit fields -/

/-- The two digits of a number below 100. -/
lemma pad2_spec {n : ℕ} (h : n < 100) :
    (pad2 n).length = 2 ∧ (∀ c ∈ pad2 n, isDigit c = true) ∧ stoi (pad2 n) = .ok ((n : ℤ), 2) := by
  have hall : ∀ n : Fin 100, (pad2 (n : ℕ)).length = 2 ∧ (pad2 (n : ℕ)).all isDigit = true ∧
      stoi (pad2 (n : ℕ)) = .ok (((n : ℕ) : ℤ), 2) := by
    decide +kernel
  obtain ⟨hlength, hdigits, hread⟩ := hall ⟨n, h⟩
  exact ⟨hlength, List.all_eq_true.mp hdigits, hread⟩

/-- Two digits are those of a number below 100. -/
lemma exists_pad2 {a b : UInt8} (ha : isDigit a = true) (hb : isDigit b = true) :
    ∃ n < 100, [a, b] = pad2 (n : ℕ) := by
  have hdigit : ∀ c : UInt8, isDigit c = true → ∃ i : Fin 10, c = UInt8.ofNat (48 + i) := by
    intro c hc
    simp only [isDigit, Bool.and_eq_true, decide_eq_true_eq, UInt8.le_iff_toNat_le] at hc
    obtain ⟨hlow, hhigh⟩ := hc
    have h48 : (48 : UInt8).toNat = 48 := rfl
    have h57 : (57 : UInt8).toNat = 57 := rfl
    refine ⟨⟨c.toNat - 48, by omega⟩, ?_⟩
    show c = UInt8.ofNat (48 + (c.toNat - 48))
    rw [show 48 + (c.toNat - 48) = c.toNat by omega, UInt8.ofNat_toNat]
  have hpair : ∀ i j : Fin 10, [UInt8.ofNat (48 + i), UInt8.ofNat (48 + j)] =
      pad2 ((10 * i + j : ℕ) : ℤ) := by
    decide +kernel
  obtain ⟨i, rfl⟩ := hdigit a ha
  obtain ⟨j, rfl⟩ := hdigit b hb
  exact ⟨10 * i + j, by omega, hpair i j⟩

/-- A date of the years that two digits can tell apart, as `ParseYyMmDd` reads them. -/
def Representable (d : YearMonthDay) : Prop := d.ok = true ∧ 2000 ≤ d.year ∧ d.year ≤ 2099

/-- The text of a representable date: its three numbers, in two digits each. -/
lemma fmtYyMmDd_eq {d : YearMonthDay} (h : Representable d) :
    ∃ yy < 100, d.year = 2000 + (yy : ℕ) ∧ d.month < 100 ∧ d.day < 100 ∧
      fmtYyMmDd d = pad2 (yy : ℕ) ++ pad2 d.month ++ pad2 d.day := by
  obtain ⟨hok, hlow, hhigh⟩ := h
  obtain ⟨hmonth, hday⟩ := YearMonthDay.le_of_ok hok
  obtain ⟨yy, hyy⟩ : ∃ yy : ℕ, d.year = 2000 + yy := ⟨(d.year - 2000).toNat, by omega⟩
  have hmod : d.year.tmod 100 = (yy : ℕ) := by
    rw [Int.tmod_eq_emod_of_nonneg (by omega)]
    omega
  refine ⟨yy, by omega, hyy, by omega, by omega, ?_⟩
  rw [fmtYyMmDd, hmod, List.take_of_length_le]
  rw [List.length_append, List.length_append, (pad2_spec (by omega)).1,
    (pad2_spec (by omega)).1, (pad2_spec (by omega)).1]

/-- What `ParseYyMmDd` makes of six digits. -/
lemma parseYyMmDd_pad2 {yy mm dd : ℕ} (hyy : yy < 100) (hmm : mm < 100) (hdd : dd < 100) :
    parseYyMmDd (pad2 yy ++ pad2 mm ++ pad2 dd) =
      if YearMonthDay.ok ⟨2000 + yy, mm, dd⟩ = true then .ok ⟨2000 + yy, mm, dd⟩
      else .error (.invalid (str "bad hashcash date: " ++ (pad2 yy ++ pad2 mm ++ pad2 dd))) := by
  obtain ⟨hlen1, hdigits1, hread1⟩ := pad2_spec hyy
  obtain ⟨hlen2, hdigits2, hread2⟩ := pad2_spec hmm
  obtain ⟨hlen3, hdigits3, hread3⟩ := pad2_spec hdd
  have hdigits : (pad2 yy ++ pad2 mm ++ pad2 dd).all isDigit = true := by
    simp only [List.all_append, Bool.and_eq_true, List.all_eq_true]
    exact ⟨⟨hdigits1, hdigits2⟩, hdigits3⟩
  have htake1 : (pad2 yy ++ pad2 mm ++ pad2 dd).take 2 = pad2 yy := by
    rw [List.append_assoc, List.take_left' hlen1]
  have htake2 : ((pad2 yy ++ pad2 mm ++ pad2 dd).drop 2).take 2 = pad2 mm := by
    rw [List.append_assoc, List.drop_left' hlen1, List.take_left' hlen2]
  have htake3 : ((pad2 yy ++ pad2 mm ++ pad2 dd).drop 4).take 2 = pad2 dd := by
    rw [List.drop_left' (by rw [List.length_append, hlen1, hlen2]),
      List.take_of_length_le (by omega)]
  have hlen : (pad2 yy ++ pad2 mm ++ pad2 dd).length = 6 := by
    rw [List.length_append, List.length_append, hlen1, hlen2, hlen3]
  rw [parseYyMmDd, if_neg (not_or.mpr ⟨not_not.mpr hlen, not_not.mpr hdigits⟩)]
  simp only [htake1, htake2, htake3, hread1, hread2, hread3, Outcome.ok_bind, Int.toNat_natCast]
  by_cases hok : YearMonthDay.ok ⟨2000 + yy, mm, dd⟩ = true
  · simp [hok]
  · simp [hok]

/-- Six digits are three numbers of two digits each. -/
lemma exists_pad2_of_digits {s : Str} (hlen : s.length = 6) (hdigits : s.all isDigit = true) :
    ∃ yy < 100, ∃ mm < 100, ∃ dd < 100, s = pad2 (yy : ℕ) ++ pad2 (mm : ℕ) ++ pad2 (dd : ℕ) := by
  match s, hlen with
  | [a, b, c, e, f, g], _ =>
    simp only [List.all_cons, List.all_nil, Bool.and_true, Bool.and_eq_true] at hdigits
    obtain ⟨ha, hb, hc, he, hf, hg⟩ := hdigits
    obtain ⟨yy, hyy, hyytext⟩ := exists_pad2 ha hb
    obtain ⟨mm, hmm, hmmtext⟩ := exists_pad2 hc he
    obtain ⟨dd, hdd, hddtext⟩ := exists_pad2 hf hg
    refine ⟨yy, hyy, mm, hmm, dd, hdd, ?_⟩
    rw [← hyytext, ← hmmtext, ← hddtext]
    rfl

/-- What `ParseYyMmDd` does: it returns a representable date from its text, and rejects every other
text with an error that names it. -/
lemma parseYyMmDd_cases (s : Str) :
    (∃ d, parseYyMmDd s = .ok d ∧ Representable d ∧ s = fmtYyMmDd d) ∨
      parseYyMmDd s = .error (.invalid (str "bad hashcash date: " ++ s)) := by
  by_cases hs : s.length ≠ 6 ∨ ¬ s.all isDigit
  · exact .inr (by rw [parseYyMmDd, if_pos hs])
  · obtain ⟨hlen, hdigits⟩ := not_or.mp hs
    obtain ⟨yy, hyy, mm, hmm, dd, hdd, rfl⟩ :=
      exists_pad2_of_digits (not_not.mp hlen) (not_not.mp hdigits)
    rw [parseYyMmDd_pad2 hyy hmm hdd]
    by_cases hok : YearMonthDay.ok ⟨2000 + yy, mm, dd⟩ = true
    · have hrep : Representable ⟨2000 + yy, mm, dd⟩ := ⟨hok, by simp, by simp; omega⟩
      obtain ⟨yy', -, hyear, -, -, htext⟩ := fmtYyMmDd_eq hrep
      obtain rfl : yy = yy' := by simpa using hyear
      exact .inl ⟨_, if_pos hok, hrep, htext.symm⟩
    · exact .inr (if_neg hok)

/-- **The dates that are read** are the representable ones, each from its own text. -/
theorem parseYyMmDd_iff {s : Str} {d : YearMonthDay} :
    parseYyMmDd s = .ok d ↔ Representable d ∧ s = fmtYyMmDd d := by
  constructor
  · intro h
    rcases parseYyMmDd_cases s with ⟨d', hread, hd'⟩ | herror
    · obtain rfl := Except.ok.inj (hread.symm.trans h)
      exact hd'
    · rw [herror] at h
      cases h
  · rintro ⟨hrep, rfl⟩
    obtain ⟨yy, hyy, hyear, hmonth, hday, htext⟩ := fmtYyMmDd_eq hrep
    rw [htext, parseYyMmDd_pad2 hyy hmonth hday, ← hyear, if_pos hrep.1]

/-- A number is written without a colon. -/
lemma colon_not_mem_toText (x : ℤ) : 58 ∉ toText x :=
  (decimal_toText x).not_mem rfl (by decide) (by decide)

/-- No date is written with a colon. -/
lemma colon_not_mem_fmtYyMmDd (d : YearMonthDay) : 58 ∉ fmtYyMmDd d := by
  have hpad : ∀ x : ℤ, 58 ∉ pad2 x := by
    intro x hmem
    unfold pad2 at hmem
    split at hmem
    · rcases List.mem_cons.mp hmem with hmem | hmem
      · exact absurd hmem (by decide)
      · exact colon_not_mem_toText x hmem
    · exact colon_not_mem_toText x hmem
  intro hmem
  rcases List.mem_append.mp (List.mem_of_mem_take hmem) with hmem | hmem
  · rcases List.mem_append.mp hmem with hmem | hmem
    · exact hpad _ hmem
    · exact hpad _ hmem
  · exact hpad _ hmem

end HashCash

end RaCommon
