import Mathlib.Algebra.Group.Int.Defs
import Mathlib.Data.List.Basic
import Mathlib.Data.Int.Notation
import Mathlib.Tactic.Common

set_option relaxedAutoImplicit false
set_option autoImplicit false

/-!
# Byte strings and outcomes of C++ calls

What every header of the library rests on: `std::string` and `std::vector<uint8_t>` as byte
sequences, the exceptions a call can throw (`exception.hpp` and those of the standard library
and of the JSON library), and the outcome of a call.

`Fault` also names the two ways in which a C++ program goes wrong without throwing. A read
outside a container or an `int` result outside its range is `Fault.undefinedBehavior`; a
conversion to a byte that does not keep its value is `Fault.valueLost`. A model that returns
normally has met neither.

## Main definitions

* `RaCommon.Str`, `RaCommon.Bytes` — byte sequences; `RaCommon.str` — a string literal.
* `RaCommon.RaErrorKind`, `RaCommon.RaException` — `exception.hpp`.
* `RaCommon.Fault`, `RaCommon.Outcome` — a call's exceptions and its outcome.
* `RaCommon.readAt`, `RaCommon.checkInt`, `RaCommon.toUInt8` — checked indexing, `int` results
  and conversions to `uint8_t`.
-/

namespace RaCommon

/-! ## Byte sequences -/

/-- A `std::string`: a sequence of bytes, one for each `char`. -/
abbrev Str := List UInt8

/-- A `std::vector<uint8_t>`. Copies between the two (`std::string(v.begin(), v.end())` and
back) keep every byte. -/
abbrev Bytes := List UInt8

/-- A string literal of the source. -/
def str (s : String) : Str := s.toByteArray.data.toList

/-- Literals differ when their bytes do. -/
@[simp] lemma str_inj {s t : String} : str s = str t ↔ s = t := by
  rw [← String.toByteArray_inj, ByteArray.ext_iff, str, str, Array.toList_inj]

/-- What holds of the numbers below 256 as bytes holds of every byte. -/
lemma forall_byte {P : UInt8 → Prop} (h : ∀ n : Fin 256, P (UInt8.ofNat n)) (b : UInt8) :
    P b := by
  have hb := h ⟨b.toNat, b.toNat_lt⟩
  rwa [UInt8.ofNat_toNat] at hb

/-! ## Exceptions -/

/-- `RaErrorKind`. -/
inductive RaErrorKind where
  | decode
  | crypto
  | invalid
  | serviceNotFound
  | serviceNotAccessible
  | serviceNotSupported
  | serviceAlreadyRegistered
  | fileCreationFailed
  | io
  deriving DecidableEq, Repr

/-- `ToString(RaErrorKind)`. -/
def RaErrorKind.toStr : RaErrorKind → Str
  | .decode => str "decode"
  | .crypto => str "crypto"
  | .invalid => str "invalid"
  | .serviceNotFound => str "service-not-found"
  | .serviceNotAccessible => str "service-not-accessible"
  | .serviceNotSupported => str "service-not-supported"
  | .serviceAlreadyRegistered => str "service-already-registered"
  | .fileCreationFailed => str "file-creation-failed"
  | .io => str "io"

/-- `RaException`: its kind and the text `what()` returns. -/
structure RaException where
  kind : RaErrorKind
  what : Str
  deriving DecidableEq, Repr

/-- The constructor `RaException(kind, message)`. -/
def RaException.of (kind : RaErrorKind) (message : Str) : RaException :=
  ⟨kind, kind.toStr ++ str ": " ++ message⟩

/-- Everything that ends a call other than a normal return. -/
inductive Fault where
  /-- An `RaException`. -/
  | ra (e : RaException)
  /-- `std::runtime_error`. -/
  | runtimeError (what : Str)
  /-- `std::invalid_argument`, thrown by `std::stoi` and `std::stoll`. -/
  | invalidArgument
  /-- `std::out_of_range`, thrown by `std::stoi` and `std::stoll`. -/
  | outOfRange
  /-- `nlohmann::json::type_error` and `out_of_range`: the error's id and its text. -/
  | json (id : ℕ) (message : Str)
  /-- An access outside a container, an `int` result outside its range, or the conversion of a
  `double` to an integer type that does not hold it. -/
  | undefinedBehavior
  /-- A conversion whose target type does not hold the value. -/
  | valueLost
  deriving DecidableEq, Repr

/-- The fault is an exception. -/
def Fault.IsException (f : Fault) : Prop := f ≠ .undefinedBehavior ∧ f ≠ .valueLost

/-- `RaException::Decode(message)`, thrown. -/
def Fault.decode (message : Str) : Fault := .ra (.of .decode message)

/-- `RaException::Crypto(message)`, thrown. -/
def Fault.crypto (message : Str) : Fault := .ra (.of .crypto message)

/-- `RaException::Invalid(message)`, thrown. -/
def Fault.invalid (message : Str) : Fault := .ra (.of .invalid message)

/-! ## Outcomes -/

/-- The outcome of a call: its value, or the fault that ended it. -/
abbrev Outcome (α : Type) := Except Fault α

namespace Outcome

variable {α β : Type}

@[simp] lemma pure_eq (a : α) : (pure a : Outcome α) = .ok a := rfl

@[simp] lemma ok_bind (a : α) (f : α → Outcome β) : ((.ok a : Outcome α) >>= f) = f a := rfl

@[simp] lemma error_bind (e : Fault) (f : α → Outcome β) :
    ((.error e : Outcome α) >>= f) = .error e := rfl

/-- A sequence returns exactly when both of its parts do. -/
lemma bind_eq_ok {x : Outcome α} {f : α → Outcome β} {b : β} :
    (x >>= f) = .ok b ↔ ∃ a, x = .ok a ∧ f a = .ok b := by
  cases x with
  | ok a => simp
  | error e => simp

/-- A sequence returns exactly when its second part does after its first. -/
lemma exists_bind {x : Outcome α} {f : α → Outcome β} :
    (∃ b, (x >>= f) = .ok b) ↔ ∃ a, x = .ok a ∧ ∃ b, f a = .ok b := by
  cases x with
  | ok a => simp
  | error e => simp

/-- A return returns. -/
lemma exists_ok (a : α) : (∃ b, (.ok a : Outcome α) = .ok b) ↔ True := by simp

/-- The fault that ends a call, if one does. -/
def fault : Outcome α → Option Fault
  | .ok _ => none
  | .error f => some f

@[simp] lemma fault_ok (a : α) : fault (.ok a) = none := rfl

@[simp] lemma fault_error (f : Fault) : fault (.error f : Outcome α) = some f := rfl

/-- **The fault that ends a sequence** is that of its first part, or else that of the second, where
this one does not depend on what the first has returned. -/
theorem fault_bind {x : Outcome α} {f : α → Outcome β} {o : Option Fault}
    (h : ∀ a, fault (f a) = o) : fault (x >>= f) = (fault x).or o := by
  cases x with
  | ok a => exact h a
  | error e => rfl

/-- What is made of the value that was returned does not matter. -/
lemma fault_map (x : Outcome α) (f : α → β) : fault (do .ok (f (← x))) = fault x := by
  cases x <;> rfl

/-- A loop whose every step returns is a fold. -/
lemma foldlM_eq_ok {f : β → α → Outcome β} {g : β → α → β} (l : List α) (b : β)
    (h : ∀ b, ∀ a ∈ l, f b a = .ok (g b a)) : l.foldlM f b = .ok (l.foldl g b) := by
  induction l generalizing b with
  | nil => rfl
  | cons a l ih =>
    rw [List.foldlM_cons, h b a (by simp), ok_bind, List.foldl_cons]
    exact ih (g b a) fun b a' ha => h b a' (by simp [ha])

/-- A list whose every element is converted. -/
lemma mapM_eq_ok {f : α → Outcome β} {g : α → β} {l : List α} (h : ∀ a ∈ l, f a = .ok (g a)) :
    l.mapM f = .ok (l.map g) := by
  induction l with
  | nil => rfl
  | cons a l ih =>
    rw [List.mapM_cons, h a (by simp), ok_bind, ih fun a' ha => h a' (by simp [ha])]
    rfl

/-- Loops whose steps agree on the elements they meet agree. -/
lemma foldlM_congr {f g : β → α → Outcome β} {l : List α} (b : β)
    (h : ∀ b, ∀ a ∈ l, f b a = g b a) : l.foldlM f b = l.foldlM g b := by
  induction l generalizing b with
  | nil => rfl
  | cons a l ih =>
    rw [List.foldlM_cons, List.foldlM_cons, h b a (by simp)]
    exact bind_congr fun b' => ih b' fun b a' ha => h b a' (by simp [ha])

/-- A loop that appends to a list the value it computes from the entries so far: if entry `i` is
`g i` whenever those before it are, the loop tabulates `g`. -/
lemma foldlM_push {f : List α → ℕ → Outcome α} {g : ℕ → α} (n s : ℕ)
    (h : ∀ i, s ≤ i → i < s + n → f ((List.range i).map g) i = .ok (g i)) :
    (List.range' s n).foldlM (fun l i => do .ok (l ++ [← f l i])) ((List.range s).map g) =
      .ok ((List.range (s + n)).map g) := by
  induction n generalizing s with
  | zero => rfl
  | succ n ih =>
    have hpush : (List.range s).map g ++ [g s] = (List.range (s + 1)).map g := by
      rw [List.range_succ, List.map_append, List.map_singleton]
    rw [List.range'_succ, List.foldlM_cons, h s (Nat.le_refl s) (by omega), ok_bind, ok_bind, hpush,
      ih (s + 1) fun i hi hlt => h i (by omega) (by omega), show s + 1 + n = s + (n + 1) by omega]

end Outcome

/-! ## Checked operations -/

/-- `xs[i]`, defined inside `xs` only. -/
def readAt {α : Type} (xs : List α) (i : ℕ) : Outcome α :=
  match xs[i]? with
  | some x => .ok x
  | none => .error .undefinedBehavior

/-- Reading inside a container. -/
lemma readAt_eq_ok {α : Type} {xs : List α} {i : ℕ} (h : i < xs.length) :
    readAt xs i = .ok xs[i] := by
  simp [readAt, h]

/-- Reading a table. -/
lemma readAt_map_range {α : Type} {g : ℕ → α} {n i : ℕ} (h : i < n) :
    readAt ((List.range n).map g) i = .ok (g i) := by
  rw [readAt_eq_ok (by simpa using h)]
  simp

/-- The result of an operation on `int`, defined inside the type's range only. -/
def checkInt (x : ℤ) : Outcome ℤ :=
  if -2 ^ 31 ≤ x ∧ x < 2 ^ 31 then .ok x else .error .undefinedBehavior

/-- An operation whose result is in the range of `int`. -/
lemma checkInt_eq_ok {x : ℤ} (h : -2 ^ 31 ≤ x ∧ x < 2 ^ 31) : checkInt x = .ok x := if_pos h

/-- `static_cast<uint8_t>(x)` of an `int` that a byte holds. -/
def toUInt8 (x : ℤ) : Outcome UInt8 :=
  if 0 ≤ x ∧ x < 256 then .ok (UInt8.ofNat x.toNat) else .error .valueLost

/-- A conversion that keeps its value. -/
lemma toUInt8_natCast {n : ℕ} (h : n < 256) : toUInt8 n = .ok (UInt8.ofNat n) := by
  rw [toUInt8, if_pos ⟨Int.natCast_nonneg n, by omega⟩, Int.toNat_natCast]

/-- A byte as an `int`, and back. -/
@[simp] lemma uint8_ofInt_toNat (b : UInt8) : UInt8.ofInt b.toNat = b := by
  have hb : ((b.toNat : ℤ) % 2 ^ 8).toNat = b.toNat := by
    have h := b.toNat_lt
    omega
  rw [UInt8.ofInt, hb, UInt8.ofNat_toNat]

/-- A 64-bit number as an integer, and back. -/
@[simp] lemma uint64_ofInt_toNat (n : UInt64) : UInt64.ofInt n.toNat = n := by
  have hn : ((n.toNat : ℤ) % 2 ^ 64).toNat = n.toNat := by
    have h := n.toNat_lt
    omega
  rw [UInt64.ofInt, hn, UInt64.ofNat_toNat]

end RaCommon
