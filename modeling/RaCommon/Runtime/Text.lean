import RaCommon.Library.Numeral
import RaCommon.Library.Separated
import RaCommon.Runtime.Outcome

set_option relaxedAutoImplicit false
set_option autoImplicit false

/-!
# Numbers and fields in text

The parts of the C++ standard library that the text formats of this library are read and written
with: `std::to_string`, `std::stoi`, `std::stoll`, `std::hex` and `std::getline` with a delimiter.

## Main definitions

* `RaCommon.toText` — `std::to_string` of an integer.
* `RaCommon.strtol`, `RaCommon.stoi`, `RaCommon.stoll` — the decimal integer a text begins with.
* `RaCommon.hexText`, `RaCommon.hexByte`, `RaCommon.stoiHex` — hexadecimal numbers.
* `RaCommon.find` — searching a text.
* `RaCommon.getline`, `RaCommon.splitOn` — the loop of the `SplitOn` functions.
* `RaCommon.Decimal`, `RaCommon.LeadingDecimal` — a text that is in its entirety a decimal integer,
  and one that begins with a decimal integer.

## Main results

* `RaCommon.strtol_iff`, `RaCommon.stoi_iff` — what is read of a text.
* `RaCommon.strtol_of_decimal`, `RaCommon.decimal_toText` — decimal integers are read entirely,
  and `to_string` writes one.
* `RaCommon.stoll_toText` — the round trip of a 64-bit integer.
* `RaCommon.stoiHex_hexByte` — the round trip of a byte in hexadecimal.
* `RaCommon.splitOn_cons`, `RaCommon.splitOn_last` — the fields of a text; an empty last field is
  lost.
-/

namespace RaCommon

/-! ## Characters -/

/-- `std::isspace` in the C locale. -/
def isSpace (c : UInt8) : Bool := c = 32 || (9 ≤ c && c ≤ 13)

/-- A decimal digit. -/
def isDigit (c : UInt8) : Bool := 48 ≤ c && c ≤ 57

/-- The number written with some decimal digits. -/
def digitsValue (digits : Str) : ℕ := Numeral.value 10 (digits.map fun c => c.toNat - 48)

/-! ## Integers -/

/-- `std::to_string` of an integer. -/
def toText (x : ℤ) : Str :=
  let digits := if x = 0 then [48]
    else (Numeral.text 10 0 x.natAbs).map fun d => UInt8.ofNat (48 + d)
  if x < 0 then 45 :: digits else digits

/-- The optional sign a text begins with, and the rest. -/
def splitSign : Str → Str × Str
  | 43 :: s => ([43], s)
  | 45 :: s => ([45], s)
  | s => ([], s)

/-- The number with a sign and digits. -/
def signed (sign digits : Str) : ℤ :=
  if sign = [45] then -(digitsValue digits) else digitsValue digits

/-- What `std::strtol` reads in base 10: white space, an optional sign and digits. The result is
the number and how many characters were read, if there is a digit. -/
def strtol (s : Str) : Option (ℤ × ℕ) :=
  let blank := s.takeWhile isSpace
  let r := splitSign (s.dropWhile isSpace)
  let digits := r.2.takeWhile isDigit
  if digits = [] then none
  else some (signed r.1 digits, blank.length + r.1.length + digits.length)

/-- `std::stoi(s, &consumed)`: the number and `consumed`. A number that `long` does not hold is
not in the range of `int` either. -/
def stoi (s : Str) : Outcome (ℤ × ℕ) :=
  match strtol s with
  | none => .error .invalidArgument
  | some (x, consumed) =>
    if -2 ^ 31 ≤ x ∧ x < 2 ^ 31 then .ok (x, consumed) else .error .outOfRange

/-- `std::stoll(s)`. -/
def stoll (s : Str) : Outcome Int64 :=
  match strtol s with
  | none => .error .invalidArgument
  | some (x, _) =>
    if -2 ^ 63 ≤ x ∧ x < 2 ^ 63 then .ok (Int64.ofInt x) else .error .outOfRange

/-- A text that is in its entirety the decimal integer `x`: an optional sign and digits. -/
def Decimal (s : Str) (x : ℤ) : Prop :=
  ∃ sign digits, s = sign ++ digits ∧ (sign = [] ∨ sign = [43] ∨ sign = [45]) ∧ digits ≠ [] ∧
    (∀ c ∈ digits, isDigit c) ∧ x = signed sign digits

/-- A digit is neither white space nor a sign. -/
lemma isDigit_not_special {c : UInt8} (h : isDigit c) : isSpace c = false ∧ c ≠ 43 ∧ c ≠ 45 := by
  revert c
  apply forall_byte
  decide +kernel

/-- A decimal integer is written with digits and signs only. -/
lemma Decimal.not_mem {s : Str} {x : ℤ} (h : Decimal s x) {c : UInt8} (hdigit : isDigit c = false)
    (hplus : c ≠ 43) (hminus : c ≠ 45) : c ∉ s := by
  obtain ⟨sign, digits, rfl, hsign, -, hdigits, -⟩ := h
  intro hmem
  rcases List.mem_append.mp hmem with hmem | hmem
  · rcases hsign with rfl | rfl | rfl
    · cases hmem
    · exact hplus (List.mem_singleton.mp hmem)
    · exact hminus (List.mem_singleton.mp hmem)
  · rw [hdigits c hmem] at hdigit
    cases hdigit

/-- A text that begins with no sign. -/
lemma splitSign_of_ne {c : UInt8} (hplus : c ≠ 43) (hminus : c ≠ 45) (s : Str) :
    splitSign (c :: s) = ([], c :: s) := by
  unfold splitSign
  split
  · next h => exact absurd (List.cons.inj h).1 hplus
  · next h => exact absurd (List.cons.inj h).1 hminus
  · rfl

/-- The sign in front of a digit. -/
lemma splitSign_append {sign : Str} (hsign : sign = [] ∨ sign = [43] ∨ sign = [45]) {d : UInt8}
    (hd : isDigit d) (ds : Str) : splitSign (sign ++ d :: ds) = (sign, d :: ds) := by
  obtain ⟨-, hplus, hminus⟩ := isDigit_not_special hd
  rcases hsign with rfl | rfl | rfl
  · exact splitSign_of_ne hplus hminus ds
  · rfl
  · rfl

/-- A text that begins with the decimal integer `x`, which ends after `n` characters: it may have
white space before it, and what follows does not go on with a digit. -/
def LeadingDecimal (s : Str) (x : ℤ) (n : ℕ) : Prop :=
  ∃ blank number rest, s = blank ++ (number ++ rest) ∧ (∀ c ∈ blank, isSpace c) ∧
    Decimal number x ∧ (∀ c ∈ rest.head?, isDigit c = false) ∧ n = blank.length + number.length

/-- What follows a number is not read. -/
lemma takeWhile_isDigit_append {digits rest : Str} (hdigits : ∀ c ∈ digits, isDigit c)
    (hrest : ∀ c ∈ rest.head?, isDigit c = false) :
    (digits ++ rest).takeWhile isDigit = digits := by
  rw [List.takeWhile_append_of_pos hdigits]
  cases rest with
  | nil => simp
  | cons c rest => rw [List.takeWhile_cons, hrest c rfl, if_neg Bool.false_ne_true, List.append_nil]

/-- A decimal integer does not begin with white space. -/
lemma Decimal.takeWhile_isSpace {s : Str} {x : ℤ} (h : Decimal s x) (rest : Str) :
    (s ++ rest).takeWhile isSpace = [] ∧ (s ++ rest).dropWhile isSpace = s ++ rest := by
  obtain ⟨sign, digits, rfl, hsign, hne, hdigits, -⟩ := h
  obtain ⟨d, ds, rfl⟩ := List.exists_cons_of_ne_nil hne
  rcases hsign with rfl | rfl | rfl
  · rw [List.nil_append, List.cons_append, List.takeWhile_cons, List.dropWhile_cons,
      (isDigit_not_special (hdigits d (by simp))).1]
    exact ⟨rfl, rfl⟩
  · exact ⟨rfl, rfl⟩
  · exact ⟨rfl, rfl⟩

/-- The integer a text begins with is read. -/
lemma strtol_of_leadingDecimal {s : Str} {x : ℤ} {n : ℕ} (h : LeadingDecimal s x n) :
    strtol s = some (x, n) := by
  obtain ⟨blank, number, rest, rfl, hblank, hnumber, hrest, rfl⟩ := h
  obtain ⟨htake, hdrop⟩ := hnumber.takeWhile_isSpace rest
  have hspaces : (blank ++ (number ++ rest)).takeWhile isSpace = blank := by
    rw [List.takeWhile_append_of_pos hblank, htake, List.append_nil]
  have hafter : (blank ++ (number ++ rest)).dropWhile isSpace = number ++ rest := by
    rw [List.dropWhile_append_of_pos hblank, hdrop]
  obtain ⟨sign, digits, rfl, hsign, hne, hdigits, rfl⟩ := hnumber
  obtain ⟨d, ds, rfl⟩ := List.exists_cons_of_ne_nil hne
  have hsplit : splitSign (sign ++ d :: ds ++ rest) = (sign, d :: ds ++ rest) := by
    rw [List.append_assoc, List.cons_append, splitSign_append hsign (hdigits d (by simp))]
  simp only [strtol, hspaces, hafter, hsplit, takeWhile_isDigit_append hdigits hrest, if_neg hne,
    List.length_append, Nat.add_assoc]

/-- A text is its sign and the rest. -/
lemma splitSign_eq (s : Str) : s = (splitSign s).1 ++ (splitSign s).2 ∧
    ((splitSign s).1 = [] ∨ (splitSign s).1 = [43] ∨ (splitSign s).1 = [45]) := by
  unfold splitSign
  split
  · simp
  · simp
  · simp

/-- What stopped a loop does not pass its test. -/
lemma head?_dropWhile {p : UInt8 → Bool} {s : Str} :
    ∀ c ∈ (s.dropWhile p).head?, p c = false := by
  intro c hc
  have hnot := List.head?_dropWhile_not p s
  rw [Option.mem_def.mp hc] at hnot
  simpa using hnot

/-- **What `std::strtol` reads** is the integer a text begins with. -/
theorem strtol_iff {s : Str} {x : ℤ} {n : ℕ} : strtol s = some (x, n) ↔ LeadingDecimal s x n := by
  refine ⟨fun h => ?_, strtol_of_leadingDecimal⟩
  obtain ⟨hsplit, hsign⟩ := splitSign_eq (s.dropWhile isSpace)
  simp only [strtol] at h
  generalize hr : splitSign (s.dropWhile isSpace) = r at h hsplit hsign
  by_cases hne : r.2.takeWhile isDigit = []
  · rw [if_pos hne] at h
    cases h
  · rw [if_neg hne, Option.some.injEq, Prod.mk.injEq] at h
    obtain ⟨rfl, rfl⟩ := h
    refine ⟨s.takeWhile isSpace, r.1 ++ r.2.takeWhile isDigit, r.2.dropWhile isDigit, ?_,
      fun c hc => (List.mem_takeWhile_imp hc), ⟨r.1, _, rfl, hsign, hne, ?_, rfl⟩,
      head?_dropWhile, ?_⟩
    · rw [List.append_assoc, List.takeWhile_append_dropWhile, ← hsplit,
        List.takeWhile_append_dropWhile]
    · exact fun c hc => List.mem_takeWhile_imp hc
    · rw [List.length_append, Nat.add_assoc]

/-- **A decimal integer is read in its entirety.** -/
theorem strtol_of_decimal {s : Str} {x : ℤ} (h : Decimal s x) : strtol s = some (x, s.length) :=
  strtol_of_leadingDecimal ⟨[], s, [], by simp, by simp, h, by simp, by simp⟩

/-- What `std::stoi` reads: the integer a text begins with, in the range of `int`. -/
theorem stoi_iff {s : Str} {x : ℤ} {n : ℕ} :
    stoi s = .ok (x, n) ↔ LeadingDecimal s x n ∧ -2 ^ 31 ≤ x ∧ x < 2 ^ 31 := by
  rw [← strtol_iff, stoi]
  cases strtol s with
  | none => simp
  | some r =>
    obtain ⟨y, k⟩ := r
    by_cases hy : -2 ^ 31 ≤ y ∧ y < 2 ^ 31
    · simp only [if_pos hy, Except.ok.injEq, Option.some.injEq, Prod.mk.injEq]
      refine ⟨?_, fun h => h.1⟩
      rintro ⟨rfl, rfl⟩
      exact ⟨⟨rfl, rfl⟩, hy⟩
    · simp only [if_neg hy, reduceCtorEq, Option.some.injEq, Prod.mk.injEq, false_iff]
      rintro ⟨⟨rfl, rfl⟩, h⟩
      exact hy h

/-- `std::stoi` reads a decimal integer in the range of `int` in its entirety. -/
lemma stoi_of_decimal {s : Str} {x : ℤ} (h : Decimal s x) (hx : -2 ^ 31 ≤ x ∧ x < 2 ^ 31) :
    stoi s = .ok (x, s.length) :=
  stoi_iff.mpr ⟨strtol_iff.mp (strtol_of_decimal h), hx⟩

/-- **What is read in its entirety is a decimal integer**, after the white space it may begin
with. -/
theorem decimal_of_stoi {s : Str} {x : ℤ} (h : stoi s = .ok (x, s.length)) :
    ∃ blank number, s = blank ++ number ∧ (∀ c ∈ blank, isSpace c) ∧ Decimal number x := by
  obtain ⟨⟨blank, number, rest, hs, hblank, hnumber, -, hlength⟩, -⟩ := stoi_iff.mp h
  have hrest : rest = [] := by
    have htotal := congrArg List.length hs
    rw [List.length_append, List.length_append] at htotal
    exact List.length_eq_zero_iff.mp (by omega)
  rw [hrest, List.append_nil] at hs
  exact ⟨blank, number, hs, hblank, hnumber⟩

/-- The number `std::stoi` returns for a decimal integer. -/
lemma eq_of_stoi {s : Str} {x y : ℤ} {n : ℕ} (h : Decimal s x) (hy : stoi s = .ok (y, n)) :
    y = x := by
  have hread := strtol_iff.mpr (stoi_iff.mp hy).1
  rw [strtol_of_decimal h, Option.some.injEq, Prod.mk.injEq] at hread
  exact hread.1.symm

/-- The digit characters. -/
lemma digit_ofNat {d : ℕ} (hd : d < 10) :
    isDigit (UInt8.ofNat (48 + d)) ∧ (UInt8.ofNat (48 + d)).toNat - 48 = d := by
  revert d
  decide

/-- **`to_string` writes a decimal integer.** -/
theorem decimal_toText (x : ℤ) : Decimal (toText x) x := by
  have hdigits : ∃ digits : Str, toText x = (if x < 0 then [45] else []) ++ digits ∧ digits ≠ [] ∧
      (∀ c ∈ digits, isDigit c) ∧ digitsValue digits = x.natAbs := by
    unfold toText
    by_cases h0 : x = 0
    · subst h0
      exact ⟨[48], rfl, by simp, List.forall_mem_singleton.mpr rfl, rfl⟩
    · refine ⟨(Numeral.text 10 0 x.natAbs).map fun d => UInt8.ofNat (48 + d), ?_, ?_, ?_, ?_⟩
      · by_cases hneg : x < 0
        · simp [h0, hneg]
        · simp [h0, hneg]
      · simp [Numeral.text, h0]
      · intro c hc
        obtain ⟨d, hd, rfl⟩ := List.mem_map.mp hc
        exact (digit_ofNat (Numeral.text_lt (by norm_num) 0 _ d hd)).1
      · have hback : ((Numeral.text 10 0 x.natAbs).map fun d => UInt8.ofNat (48 + d)).map
            (fun c => c.toNat - 48) = Numeral.text 10 0 x.natAbs := by
          rw [List.map_map]
          conv_rhs => rw [← List.map_id (Numeral.text 10 0 x.natAbs)]
          refine List.map_congr_left fun d hd => ?_
          exact (digit_ofNat (Numeral.text_lt (by norm_num) 0 _ d hd)).2
        rw [digitsValue, hback, Numeral.value_text]
  obtain ⟨digits, htext, hne, hall, hvalue⟩ := hdigits
  by_cases hneg : x < 0
  · refine ⟨[45], digits, by simpa [hneg] using htext, by simp, hne, hall, ?_⟩
    rw [signed, if_pos rfl, hvalue]
    omega
  · refine ⟨[], digits, by simpa [hneg] using htext, by simp, hne, hall, ?_⟩
    rw [signed, if_neg (by simp), hvalue]
    omega

/-- **`stoll` reads back what `to_string` wrote** of a 64-bit integer. -/
theorem stoll_toText (x : Int64) : stoll (toText x.toInt) = .ok x := by
  have hle := x.le_toInt
  have hlt := x.toInt_lt
  simp only [stoll, strtol_of_decimal (decimal_toText x.toInt), if_pos (And.intro hle hlt),
    Int64.ofInt_toInt]

/-! ## Hexadecimal numbers -/

/-- `kHex[i]`. -/
def hexDigit (i : UInt8) : UInt8 := (str "0123456789abcdef").getD i.toNat 0

/-- A byte as two hexadecimal digits: `kHex[b >> 4]` and `kHex[b & 0xf]`, or `"%02x"`. -/
def hexByte (b : UInt8) : Str := [hexDigit (b >>> 4), hexDigit (b &&& 0xf)]

/-- `os << std::hex << n` for an unsigned `n`. -/
def hexText (n : ℕ) : Str :=
  if n = 0 then str "0" else (Numeral.text 16 0 n).map fun d => hexDigit (UInt8.ofNat d)

/-- A hexadecimal digit. -/
def isHexDigit (c : UInt8) : Bool := isDigit c || (97 ≤ c && c ≤ 102) || (65 ≤ c && c ≤ 70)

/-- The value of a hexadecimal digit. -/
def hexValue (c : UInt8) : ℕ :=
  if isDigit c then c.toNat - 48 else if 97 ≤ c then c.toNat - 87 else c.toNat - 55

/-- The prefix `0x` or `0X`, which counts in front of a digit only. -/
def dropHexPrefix : Str → Str
  | 48 :: x :: d :: s => if (x = 120 ∨ x = 88) ∧ isHexDigit d then d :: s else 48 :: x :: d :: s
  | s => s

/-- What `std::strtol` reads in base 16, if there is a digit. -/
def strtolHex (s : Str) : Option ℤ :=
  let r := splitSign (s.dropWhile isSpace)
  let digits := (dropHexPrefix r.2).takeWhile isHexDigit
  if digits = [] then none
  else
    let magnitude : ℕ := Numeral.value 16 (digits.map hexValue)
    some (if r.1 = [45] then -magnitude else magnitude)

/-- `std::stoi(s, nullptr, 16)`. -/
def stoiHex (s : Str) : Outcome ℤ :=
  match strtolHex s with
  | none => .error .invalidArgument
  | some x => if -2 ^ 31 ≤ x ∧ x < 2 ^ 31 then .ok x else .error .outOfRange

/-- The sixteen digits: each is neither white space nor a sign, and has its value. -/
lemma hexDigit_spec {d : ℕ} (hd : d < 16) :
    isHexDigit (hexDigit (UInt8.ofNat d)) = true ∧ hexValue (hexDigit (UInt8.ofNat d)) = d ∧
      isSpace (hexDigit (UInt8.ofNat d)) = false ∧
      ∀ s, splitSign (hexDigit (UInt8.ofNat d) :: s) = ([], hexDigit (UInt8.ofNat d) :: s) := by
  have hall : ∀ d : Fin 16, isHexDigit (hexDigit (UInt8.ofNat d)) = true ∧
      hexValue (hexDigit (UInt8.ofNat d)) = d ∧ isSpace (hexDigit (UInt8.ofNat d)) = false ∧
      hexDigit (UInt8.ofNat d) ≠ 43 ∧ hexDigit (UInt8.ofNat d) ≠ 45 := by
    decide +kernel
  obtain ⟨hdigit, hvalue, hspace, hplus, hminus⟩ := hall ⟨d, hd⟩
  exact ⟨hdigit, hvalue, hspace, splitSign_of_ne hplus hminus⟩

/-- The two halves of a byte. -/
lemma hexByte_eq (b : UInt8) :
    hexByte b = [hexDigit (UInt8.ofNat (b.toNat / 16)), hexDigit (UInt8.ofNat (b.toNat % 16))] := by
  have hhigh : b >>> 4 = UInt8.ofNat (b.toNat / 16) := by
    rw [← UInt8.toNat_inj, UInt8.toNat_shiftRight, UInt8.toNat_ofNat', Nat.shiftRight_eq_div_pow]
    have hb := b.toNat_lt
    have hshift : 2 ^ ((4 : UInt8).toNat % 8) = 16 := rfl
    rw [hshift]
    exact (Nat.mod_eq_of_lt (by omega)).symm
  have hlow : b &&& 0xf = UInt8.ofNat (b.toNat % 16) := by
    rw [← UInt8.toNat_inj, UInt8.toNat_and, UInt8.toNat_ofNat']
    have hmask : b.toNat &&& (0xf : UInt8).toNat = b.toNat % 16 :=
      Nat.and_two_pow_sub_one_eq_mod b.toNat 4
    rw [hmask]
    exact (Nat.mod_eq_of_lt (by omega)).symm
  rw [hexByte, hhigh, hlow]

/-- Two characters are too short for a prefix and a digit. -/
lemma dropHexPrefix_pair (a b : UInt8) : dropHexPrefix [a, b] = [a, b] := by
  unfold dropHexPrefix
  split
  · next h => simp at h
  · rfl

/-- **`stoi` reads back the two hexadecimal digits of a byte.** -/
theorem stoiHex_hexByte (b : UInt8) : stoiHex (hexByte b) = .ok (b.toNat : ℤ) := by
  have hb := b.toNat_lt
  obtain ⟨hhigh, hhighValue, hspace, hsign⟩ := hexDigit_spec (d := b.toNat / 16) (by omega)
  obtain ⟨hlow, hlowValue, -, -⟩ := hexDigit_spec (d := b.toNat % 16) (by omega)
  have hvalue : Numeral.value 16 [b.toNat / 16, b.toNat % 16] = b.toNat := by
    simp only [Numeral.value, List.foldl_cons, List.foldl_nil]
    omega
  have hread : strtolHex (hexByte b) = some (b.toNat : ℤ) := by
    rw [hexByte_eq]
    simp only [strtolHex, List.dropWhile_cons, hspace, Bool.false_eq_true, if_false, hsign,
      dropHexPrefix_pair, List.takeWhile_cons, hhigh, hlow, if_true, List.takeWhile_nil,
      List.map_cons,
      List.map_nil, hhighValue, hlowValue, hvalue]
    rfl
  have hint : -2 ^ 31 ≤ (b.toNat : ℤ) ∧ (b.toNat : ℤ) < 2 ^ 31 := by omega
  simp only [stoiHex, hread, if_pos hint]

/-! ## Two characters read in base 16 -/

/-- A letter in lower case, another character as it is. -/
def lowerCase (c : UInt8) : UInt8 := if 65 ≤ c ∧ c ≤ 90 then c + 32 else c

/-- What a hexadecimal digit is not, the value it has, and how it is written in lower case. -/
lemma isHexDigit_spec (c : UInt8) :
    (isHexDigit (lowerCase c) = isHexDigit c) ∧ (isHexDigit c = true → isSpace c = false ∧
      c ≠ 43 ∧ c ≠ 45 ∧ hexValue c < 16 ∧ hexDigit (UInt8.ofNat (hexValue c)) = lowerCase c) := by
  revert c
  apply forall_byte
  decide +kernel

/-- The value of a character is small, also where it is none of a digit. -/
lemma hexValue_lt (c : UInt8) : hexValue c < 256 := by
  have hc := c.toNat_lt
  unfold hexValue
  split
  · omega
  · split <;> omega

/-- What `std::stoi(s, nullptr, 16)` reads of two characters: two digits, a digit that something
else follows, or a digit after white space or a sign. -/
def pairValue (a b : UInt8) : Option ℤ :=
  if isHexDigit a then some (if isHexDigit b then 16 * hexValue a + hexValue b else hexValue a)
  else if isHexDigit b then
    if isSpace a || a = 43 then some (hexValue b) else if a = 45 then some (-hexValue b) else none
  else none

/-- One character is too short for a prefix and a digit. -/
lemma dropHexPrefix_single (a : UInt8) : dropHexPrefix [a] = [a] := by
  unfold dropHexPrefix
  split
  · next h => simp at h
  · rfl

/-- What `std::strtol` reads of one character behind a sign, if there is a sign. -/
lemma strtolHex_of_single {s sign : Str} {b : UInt8}
    (h : splitSign (s.dropWhile isSpace) = (sign, [b])) :
    strtolHex s = if isHexDigit b then
      some (if sign = [45] then -(hexValue b : ℤ) else hexValue b) else none := by
  by_cases hb : isHexDigit b = true
  · simp [strtolHex, h, dropHexPrefix_single, hb, Numeral.value]
  · simp [strtolHex, h, dropHexPrefix_single, hb]

/-- White space is passed over. -/
lemma strtolHex_space {a : UInt8} (ha : isSpace a = true) (s : Str) :
    strtolHex (a :: s) = strtolHex s := by
  rw [strtolHex, strtolHex, List.dropWhile_cons, if_pos ha]

/-- What `std::strtol` reads of one character in base 16. -/
lemma strtolHex_single (b : UInt8) :
    strtolHex [b] = if isHexDigit b then some (hexValue b : ℤ) else none := by
  by_cases hspace : isSpace b = true
  · have hb : ¬ isHexDigit b = true := by
      intro hb
      rw [((isHexDigit_spec b).2 hb).1] at hspace
      cases hspace
    rw [strtolHex_space hspace, if_neg hb]
    rfl
  · by_cases hsign : b = 43 ∨ b = 45
    · rcases hsign with rfl | rfl
      · rfl
      · rfl
    · rw [not_or] at hsign
      have hrest : splitSign ([b].dropWhile isSpace) = ([], [b]) := by
        rw [List.dropWhile_cons, if_neg hspace]
        exact splitSign_of_ne hsign.1 hsign.2 []
      rw [strtolHex_of_single hrest]
      simp

/-- What `std::strtol` reads of two characters in base 16. -/
lemma strtolHex_pair (a b : UInt8) : strtolHex [a, b] = pairValue a b := by
  by_cases ha : isHexDigit a = true
  · obtain ⟨hspace, hplus, hminus, -, -⟩ := (isHexDigit_spec a).2 ha
    have hall : splitSign ([a, b].dropWhile isSpace) = ([], [a, b]) := by
      rw [List.dropWhile_cons, hspace]
      exact splitSign_of_ne hplus hminus [b]
    by_cases hb : isHexDigit b = true
    · simp [strtolHex, hall, dropHexPrefix_pair, pairValue, ha, hb, Numeral.value]
    · simp [strtolHex, hall, dropHexPrefix_pair, pairValue, ha, hb, Numeral.value]
  · rw [pairValue, if_neg ha]
    by_cases hspace : isSpace a = true
    · rw [strtolHex_space hspace, strtolHex_single, hspace, Bool.true_or, if_pos rfl]
    · have hdrop : [a, b].dropWhile isSpace = [a, b] := by
        rw [List.dropWhile_cons, if_neg hspace]
      rw [Bool.eq_false_iff.mpr hspace, Bool.false_or]
      by_cases hplus : a = 43
      · subst hplus
        have hrest : splitSign ([43, b].dropWhile isSpace) = ([43], [b]) := by
          rw [hdrop]
          rfl
        rw [strtolHex_of_single hrest]
        simp
      · by_cases hminus : a = 45
        · subst hminus
          have hrest : splitSign ([45, b].dropWhile isSpace) = ([45], [b]) := by
            rw [hdrop]
            rfl
          rw [strtolHex_of_single hrest]
          simp
        · have hall : splitSign ([a, b].dropWhile isSpace) = ([], [a, b]) := by
            rw [hdrop]
            exact splitSign_of_ne hplus hminus [b]
          simp [strtolHex, hall, dropHexPrefix_pair, ha, hplus, hminus]

/-- **What `std::stoi` reads of two characters in base 16.** -/
theorem stoiHex_pair {a b : UInt8} {x : ℤ} : stoiHex [a, b] = .ok x ↔ pairValue a b = some x := by
  rw [stoiHex, strtolHex_pair]
  have hrange : ∀ y, pairValue a b = some y → -2 ^ 31 ≤ y ∧ y < 2 ^ 31 := by
    intro y hy
    have ha := hexValue_lt a
    have hb := hexValue_lt b
    unfold pairValue at hy
    split_ifs at hy <;> simp only [Option.some.injEq] at hy <;> omega
  cases hpair : pairValue a b with
  | none => simp
  | some y => simp only [if_pos (hrange y hpair), Except.ok.injEq, Option.some.injEq]

/-- Two digits are the text of the byte they are read as, in lower case. -/
lemma hexByte_pair {a b : UInt8} (ha : isHexDigit a = true) (hb : isHexDigit b = true) :
    hexByte (UInt8.ofInt (16 * hexValue a + hexValue b)) = [lowerCase a, lowerCase b] := by
  obtain ⟨-, -, -, halt, hlowerA⟩ := (isHexDigit_spec a).2 ha
  obtain ⟨-, -, -, hblt, hlowerB⟩ := (isHexDigit_spec b).2 hb
  have hnum : (UInt8.ofInt (16 * hexValue a + hexValue b)).toNat =
      16 * hexValue a + hexValue b := by
    rw [UInt8.ofInt, UInt8.toNat_ofNat']
    omega
  rw [hexByte_eq, hnum, show (16 * hexValue a + hexValue b) / 16 = hexValue a by omega,
    show (16 * hexValue a + hexValue b) % 16 = hexValue b by omega, hlowerA, hlowerB]

/-! ## Fields -/

/-- `s.find(pattern)`: where `pattern` first occurs. -/
def find (pattern : Str) : Str → Option ℕ
  | [] => if pattern = [] then some 0 else none
  | c :: s => if pattern.isPrefixOf (c :: s) then some 0 else (find pattern s).map (· + 1)

/-- `std::getline(ss, item, delim)`: the field read and what is left, unless nothing is left. -/
def getline (delim : UInt8) (s : Str) : Option (Str × Str) :=
  if s = [] then none else some (s.takeWhile (· ≠ delim), (s.dropWhile (· ≠ delim)).drop 1)

/-- The field read ends at a delimiter or at the end of the text. -/
lemma getline_cases {delim : UInt8} {s item rest : Str}
    (h : getline delim s = some (item, rest)) :
    s ≠ [] ∧ (s = item ++ delim :: rest ∨ s = item ∧ rest = []) := by
  unfold getline at h
  by_cases hs : s = []
  · rw [if_pos hs] at h
    cases h
  · rw [if_neg hs, Option.some.injEq, Prod.mk.injEq] at h
    obtain ⟨hitem, hrest⟩ := h
    have hsplit := List.takeWhile_append_dropWhile (p := fun c => decide (c ≠ delim)) (l := s)
    rw [hitem] at hsplit
    cases hdrop : s.dropWhile fun c => decide (c ≠ delim) with
    | nil =>
      rw [hdrop, List.append_nil] at hsplit
      rw [hdrop] at hrest
      exact ⟨hs, .inr ⟨hsplit.symm, hrest.symm⟩⟩
    | cons c cs =>
      have hc : c = delim := by
        have hne : s.dropWhile (fun c => decide (c ≠ delim)) ≠ [] := by
          rw [hdrop]
          simp
        have hhead := List.head_dropWhile_not (fun c => decide (c ≠ delim)) hne
        simp only [hdrop, List.head_cons] at hhead
        simpa using hhead
      rw [hdrop] at hsplit hrest
      refine ⟨hs, .inl ?_⟩
      rw [← hrest, ← hsplit, hc, List.drop_one, List.tail_cons]

/-- What is left gets shorter. -/
lemma length_of_getline {delim : UInt8} {s item rest : Str}
    (h : getline delim s = some (item, rest)) : rest.length < s.length := by
  obtain ⟨hs, rfl | ⟨-, rfl⟩⟩ := getline_cases h
  · rw [List.length_append, List.length_cons]
    omega
  · exact List.length_pos_of_ne_nil hs

/-- `SplitOn`: the loop over `std::getline`. -/
def splitOn (s : Str) (delim : UInt8) : List Str :=
  match _h : getline delim s with
  | none => []
  | some (item, rest) => item :: splitOn rest delim
termination_by s.length
decreasing_by exact length_of_getline _h

/-- One round of the loop. -/
lemma splitOn_of_getline {delim : UInt8} {s item rest : Str}
    (h : getline delim s = some (item, rest)) : splitOn s delim = item :: splitOn rest delim := by
  rw [splitOn]
  split
  · next hnone =>
    rw [h] at hnone
    cases hnone
  · next hsome =>
    rw [h, Option.some.injEq, Prod.mk.injEq] at hsome
    rw [hsome.1, hsome.2]

/-- A field with a delimiter after it. -/
theorem splitOn_cons {item : Str} {delim : UInt8} (h : delim ∉ item) (rest : Str) :
    splitOn (item ++ delim :: rest) delim = item :: splitOn rest delim := by
  apply splitOn_of_getline
  rw [getline, if_neg (by simp), Separated.takeWhile_append_cons h,
    Separated.dropWhile_append_cons h, List.drop_one, List.tail_cons]

/-- Nothing is left after the end of the text, or after a delimiter at its end. -/
@[simp] lemma splitOn_nil (delim : UInt8) : splitOn [] delim = [] := by
  rw [splitOn]
  split
  · rfl
  · next hsome => simp [getline] at hsome

/-- The last field, when it is not empty. -/
theorem splitOn_last {item : Str} {delim : UInt8} (h : delim ∉ item) (hne : item ≠ []) :
    splitOn item delim = [item] := by
  have hitem := Separated.decide_ne_of_not_mem h
  have hget : getline delim item = some (item, []) := by
    rw [getline, if_neg hne, List.takeWhile_eq_self_iff.mpr hitem,
      List.dropWhile_eq_nil_iff.mpr hitem, List.drop_nil]
  rw [splitOn_of_getline hget, splitOn_nil]

/-- **The fields make up the text**, unless it ends with a delimiter. -/
theorem intercalate_splitOn {s : Str} {delim : UInt8} (h : s.getLast? ≠ some delim) :
    [delim].intercalate (splitOn s delim) = s := by
  induction hn : s.length using Nat.strong_induction_on generalizing s with
  | _ n ih =>
    cases hget : getline delim s with
    | none =>
      have hs : s = [] := by
        by_contra hne
        simp [getline, hne] at hget
      rw [hs, splitOn_nil]
      rfl
    | some r =>
      obtain ⟨item, rest⟩ := r
      have hlt := length_of_getline hget
      rw [splitOn_of_getline hget]
      obtain ⟨-, hs | ⟨hs, hrest⟩⟩ := getline_cases hget
      · have hne : rest ≠ [] := by
          rintro rfl
          rw [hs] at h
          simp at h
        have hlast : rest.getLast? ≠ some delim := by
          intro hrest
          rw [hs, List.getLast?_append, List.getLast?_cons_of_ne_nil hne, hrest] at h
          simp at h
        have hrec := ih rest.length (by omega) hlast rfl
        have hparts : splitOn rest delim ≠ [] := by
          intro hnil
          rw [hnil] at hrec
          exact hne hrec.symm
        rw [List.intercalate_cons_of_ne_nil hparts, hrec, hs, List.append_assoc]
        rfl
      · rw [hrest, splitOn_nil, List.intercalate_singleton, hs]

end RaCommon
