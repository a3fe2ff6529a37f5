import RaCommon.Library.OrderedMap
import RaCommon.Runtime.Text

set_option relaxedAutoImplicit false
set_option autoImplicit false

/-!
# JSON trees (`nlohmann::json`)

The values of the JSON library and the operations on them that this library's `ToJson` and
`FromJson` functions are written with, including their errors.

## Main definitions

* `RaCommon.Json` — a JSON value.
* `RaCommon.Json.contains`, `RaCommon.Json.at`, `RaCommon.Json.value` — members of objects.
* `RaCommon.Json.getString` and its siblings — the conversions `get<T>()`.
* `RaCommon.Json.elems`, `RaCommon.Json.items` — what a range-based `for` runs over.
* `RaCommon.Json.optional`, `RaCommon.Json.orDefault` — the two ways in which `FromJson`
  functions read a member that may be missing.
* `RaCommon.Fields` — the members of an object under construction.
* `RaCommon.Json.rejection` — the fault with which the reader of a member ends.

## Main results

* `RaCommon.Fields.find_set` and its siblings — the members of an object that a `ToJson` function
  has built.
* `RaCommon.Json.optional_object`, `RaCommon.Json.orDefault_object`,
  `RaCommon.Json.value_object` — how they are read back.
-/

namespace RaCommon

/-- A JSON value. Numbers keep the type they were made or parsed with; a `double` is kept as its
64 bits. The members of an object are in the order of a `std::map`. -/
inductive Json where
  | null
  | boolean (b : Bool)
  | numberInteger (n : Int64)
  | numberUnsigned (n : UInt64)
  | numberFloat (bits : UInt64)
  | string (s : Str)
  | binary (data : Bytes) (subtype : Option UInt64)
  | array (elems : List Json)
  | object (fields : List (Str × Json))

/-! ## Objects under construction -/

/-- The members of an object. -/
abbrev Fields := List (Str × Json)

namespace Fields

variable {α : Type}

/-- `obj[key] = value` on an object. -/
def set (m : Fields) (key : Str) (value : Json) : Fields := OrderedMap.insert key value m

/-- `if (o) obj[key] = *o;` -/
def setOpt (m : Fields) (key : Str) (o : Option α) (write : α → Json) : Fields :=
  match o with
  | none => m
  | some a => m.set key (write a)

/-- `if (c) obj[key] = value;` -/
def setIf (m : Fields) (c : Bool) (key : Str) (value : Json) : Fields :=
  if c then m.set key value else m

/-- An object made from an initializer list of pairs. -/
def of (pairs : List (Str × Json)) : Fields := pairs.foldl (fun m p => m.set p.1 p.2) []

/-- The value of a member. -/
def find (m : Fields) (key : Str) : Option Json := OrderedMap.find key m

@[simp] lemma of_nil : of [] = [] := rfl

/-- The members of an initializer list, one assignment after the other. -/
@[simp] lemma of_cons (p : Str × Json) (pairs : List (Str × Json)) :
    of (p :: pairs) = pairs.foldl (fun m p => m.set p.1 p.2) (set [] p.1 p.2) := rfl

/-- The value just assigned. -/
@[simp] theorem find_set (m : Fields) (key : Str) (value : Json) :
    (m.set key value).find key = some value := OrderedMap.find_insert key value m

/-- The members an assignment leaves alone. -/
@[simp] lemma find_set_of_ne (m : Fields) {j key : Str} (h : j ≠ key) (value : Json) :
    (m.set key value).find j = m.find j := OrderedMap.find_insert_of_ne h value m

/-- The value of an optional member. -/
@[simp] lemma find_setOpt (m : Fields) (key : Str) (o : Option α) (write : α → Json) :
    (m.setOpt key o write).find key = (o.map write).or (m.find key) := by
  cases o <;> simp [setOpt]

/-- The members an optional one leaves alone. -/
@[simp] lemma find_setOpt_of_ne (m : Fields) {j key : Str} (h : j ≠ key) (o : Option α)
    (write : α → Json) : (m.setOpt key o write).find j = m.find j := by
  cases o <;> simp [setOpt, h]

/-- The value of a conditional member. -/
@[simp] lemma find_setIf (m : Fields) (c : Bool) (key : Str) (value : Json) :
    (m.setIf c key value).find key = if c then some value else m.find key := by
  cases c <;> simp [setIf]

/-- The members a conditional one leaves alone. -/
@[simp] lemma find_setIf_of_ne (m : Fields) (c : Bool) {j key : Str} (h : j ≠ key)
    (value : Json) : (m.setIf c key value).find j = m.find j := by
  cases c <;> simp [setIf, h]

@[simp] lemma find_nil (key : Str) : find [] key = none := rfl

end Fields

namespace Json

variable {α : Type}

/-! ## Types and members -/

/-- `type_name`. -/
def typeName : Json → Str
  | .null => str "null"
  | .object _ => str "object"
  | .array _ => str "array"
  | .string _ => str "string"
  | .boolean _ => str "boolean"
  | .binary _ _ => str "binary"
  | .numberInteger _ | .numberUnsigned _ | .numberFloat _ => str "number"

/-- `is_object`. -/
def isObject : Json → Bool
  | .object _ => true
  | _ => false

/-- `is_null`. -/
def isNull : Json → Bool
  | .null => true
  | _ => false

/-- `empty`. -/
def isEmpty : Json → Bool
  | .null => true
  | .array elems => elems.isEmpty
  | .object fields => fields.isEmpty
  | _ => false

/-- The member of an object, if the value is one and has it. -/
def find? : Json → Str → Option Json
  | .object fields, key => Fields.find fields key
  | _, _ => none

/-- `contains(key)`. -/
def contains (data : Json) (key : Str) : Bool := (data.find? key).isSome

/-- What `at(key)` on an object makes of the value found. -/
def readAt (key : Str) : Option Json → Outcome Json
  | some value => .ok value
  | none => .error (.json 403 (str "key '" ++ key ++ str "' not found"))

/-- `at(key)`. -/
def «at» (data : Json) (key : Str) : Outcome Json :=
  match data with
  | .object fields => readAt key (Fields.find fields key)
  | data => .error (.json 304 (str "cannot use at() with " ++ data.typeName))

/-- What a range-based `for` runs over: a value that is no container is its own only element. -/
def elems : Json → List Json
  | .array elems => elems
  | .object fields => fields.map (·.2)
  | .null => []
  | data => [data]

/-- What a range-based `for` over `items()` runs over. -/
def items : Json → List (Str × Json)
  | .object fields => fields
  | .array elems => elems.zipIdx.map fun p => (toText p.2, p.1)
  | .null => []
  | data => [([], data)]

/-! ## Sizes, for functions that read a tree -/

/-- The members of an object are smaller than it. -/
lemma sizeOf_of_find? {data v : Json} {key : Str} (h : data.find? key = some v) :
    sizeOf v + 2 < sizeOf data := by
  cases data with
  | object fields =>
    have hfind : OrderedMap.find key fields = some v := h
    clear h
    rw [object.sizeOf_spec]
    induction fields with
    | nil => simp at hfind
    | cons e fields ih =>
      rw [List.cons.sizeOf_spec]
      rw [OrderedMap.find] at hfind
      split at hfind
      · obtain ⟨k, w⟩ := e
        obtain rfl : w = v := by simpa using hfind
        rw [Prod.mk.sizeOf_spec]
        omega
      · have := ih hfind
        omega
  | _ => simp [find?] at h

/-- What a loop over a value runs over is hardly larger than the value. -/
lemma sizeOf_elems (data : Json) : sizeOf data.elems ≤ sizeOf data + 2 := by
  cases data with
  | object fields =>
    have hmap : ∀ m : List (Str × Json), sizeOf (m.map (·.2)) ≤ sizeOf m := by
      intro m
      induction m with
      | nil => simp
      | cons e m ih =>
        obtain ⟨k, w⟩ := e
        simp only [List.map_cons, List.cons.sizeOf_spec, Prod.mk.sizeOf_spec]
        omega
    have := hmap fields
    rw [elems, object.sizeOf_spec]
    omega
  | array l =>
    rw [elems, array.sizeOf_spec]
    omega
  | _ =>
    simp only [elems, List.cons.sizeOf_spec, List.nil.sizeOf_spec]
    omega

/-! ## Conversions -/

/-- The error of `get<T>()` on a value of another type. -/
def typeError (expected : Str) (data : Json) : Fault :=
  .json 302 (str "type must be " ++ expected ++ str ", but is " ++ data.typeName)

/-- `get<std::string>()`. -/
def getString : Json → Outcome Str
  | .string s => .ok s
  | data => .error (typeError (str "string") data)

/-- `get<bool>()`. -/
def getBool : Json → Outcome Bool
  | .boolean b => .ok b
  | data => .error (typeError (str "boolean") data)

/-- A `double` truncated towards zero, if it is finite. -/
def truncate (bits : UInt64) : Option ℤ :=
  let exponent := ((bits >>> 52) &&& 0x7ff).toNat
  let fraction := (bits &&& 0xfffffffffffff).toNat
  if exponent = 0x7ff then none
  else
    let significand := if exponent = 0 then fraction else fraction + 2 ^ 52
    let scale := max exponent 1
    let magnitude : ℕ :=
      if 1075 ≤ scale then significand * 2 ^ (scale - 1075)
      else significand / 2 ^ (1075 - scale)
    some (if bits >>> 63 = 1 then -magnitude else magnitude)

/-- `get<int>()`. Integers are reduced to 32 bits; converting a `double` whose integer part `int`
does not hold is undefined. -/
def getInt : Json → Outcome Int32
  | .numberUnsigned n => .ok n.toUInt32.toInt32
  | .numberInteger n => .ok n.toInt32
  | .numberFloat bits =>
    match truncate bits with
    | some x => if -2 ^ 31 ≤ x ∧ x < 2 ^ 31 then .ok (Int32.ofInt x) else .error .undefinedBehavior
    | none => .error .undefinedBehavior
  | .boolean b => .ok (if b then 1 else 0)
  | data => .error (typeError (str "number") data)

/-- `get<T>()` for a type `T` of numbers that is no type of JSON values, or one of the two types of
JSON integers, for numbers. Integers are reduced to the range of `T`; converting a `double` whose
integer part `T` does not hold is undefined. -/
def getNumber (convert : ℤ → α) (holds : ℤ → Bool) : Json → Outcome α
  | .numberUnsigned n => .ok (convert n.toNat)
  | .numberInteger n => .ok (convert n.toInt)
  | .numberFloat bits =>
    match truncate bits with
    | some x => if holds x then .ok (convert x) else .error .undefinedBehavior
    | none => .error .undefinedBehavior
  | data => .error (typeError (str "number") data)

/-- `get<int64_t>()`. -/
def getInt64 (data : Json) : Outcome Int64 :=
  data.getNumber Int64.ofInt fun x => -2 ^ 63 ≤ x && x < 2 ^ 63

/-- `get<size_t>()`. -/
def getSize (data : Json) : Outcome UInt64 :=
  data.getNumber UInt64.ofInt fun x => 0 ≤ x && x < 2 ^ 64

/-- `get<uint8_t>()`, which takes a boolean for a number, too. -/
def getUInt8 : Json → Outcome UInt8
  | .boolean b => .ok (if b then 1 else 0)
  | data => data.getNumber UInt8.ofInt fun x => 0 ≤ x && x < 256

/-- `get<std::vector<nlohmann::json>>()`. -/
def getArray : Json → Outcome (List Json)
  | .array elems => .ok elems
  | data => .error (typeError (str "array") data)

/-- `get<std::vector<std::string>>()`. -/
def getStrings (data : Json) : Outcome (List Str) := do
  (← data.getArray).mapM getString

/-- `get<std::vector<uint8_t>>()`. -/
def getBytes (data : Json) : Outcome Bytes := do
  (← data.getArray).mapM getUInt8

/-- `data.value(key, fallback)`. -/
def value (data : Json) (key : Str) (get : Json → Outcome α) (fallback : α) : Outcome α :=
  match data with
  | .object fields =>
    match Fields.find fields key with
    | some v => get v
    | none => .ok fallback
  | data => .error (.json 306 (str "cannot use value() with " ++ data.typeName))

/-- `if (data.contains(key)) x = read(data.at(key));` for an optional `x`. -/
def optional (data : Json) (key : Str) (read : Json → Outcome α) : Outcome (Option α) :=
  if data.contains key then do .ok (some (← read (← data.at key))) else .ok none

/-- `data.contains(key) ? read(data.at(key)) : fallback`. -/
def orDefault (data : Json) (key : Str) (read : Json → Outcome α) (fallback : α) : Outcome α :=
  if data.contains key then do read (← data.at key) else .ok fallback

/-- What reading an optional member makes of the value found. -/
def readOption (read : Json → Outcome α) : Option Json → Outcome (Option α)
  | none => .ok none
  | some v => do .ok (some (← read v))

/-- What reading a member with a default makes of the value found. -/
def readOr (read : Json → Outcome α) (fallback : α) : Option Json → Outcome α
  | none => .ok fallback
  | some v => read v

@[simp] lemma readOption_none (read : Json → Outcome α) : readOption read none = .ok none := rfl

@[simp] lemma readOption_some (read : Json → Outcome α) (v : Json) :
    readOption read (some v) = read v >>= fun a => .ok (some a) := rfl

@[simp] lemma readOr_none (read : Json → Outcome α) (fallback : α) :
    readOr read fallback none = .ok fallback := rfl

@[simp] lemma readOr_some (read : Json → Outcome α) (fallback : α) (v : Json) :
    readOr read fallback (some v) = read v := rfl

/-! ## Writing -/

/-- The conversion of an `int`. -/
def ofInt (n : Int32) : Json := .numberInteger n.toInt64

/-- The conversion of a `std::vector<std::string>`. -/
def ofStrings (l : List Str) : Json := .array (l.map .string)

/-- The conversion of a `uint8_t`. -/
def ofUInt8 (b : UInt8) : Json := .numberUnsigned b.toUInt64

/-- The conversion of a `std::vector<uint8_t>`. -/
def ofBytes (data : Bytes) : Json := .array (data.map ofUInt8)

@[simp] lemma getString_string (s : Str) : getString (.string s) = .ok s := rfl

@[simp] lemma getBool_boolean (b : Bool) : getBool (.boolean b) = .ok b := rfl

@[simp] lemma getArray_array (l : List Json) : getArray (.array l) = .ok l := rfl

@[simp] lemma getInt_ofInt (n : Int32) : getInt (ofInt n) = .ok n := by
  simp [getInt, ofInt]

/-- A loop over the elements a loop has written. -/
lemma mapM_map {β : Type} {read : Json → Outcome α} {write : β → Json} {f : β → α} (l : List β)
    (h : ∀ b ∈ l, read (write b) = .ok (f b)) : (l.map write).mapM read = .ok (l.map f) := by
  rw [List.mapM_map]
  exact Outcome.mapM_eq_ok h

@[simp] lemma getStrings_ofStrings (l : List Str) : getStrings (ofStrings l) = .ok l := by
  have h : (l.map .string).mapM getString = .ok (l.map id) := mapM_map l fun _ _ => rfl
  rw [List.map_id] at h
  exact h

/-- **Which arrays are read as texts**: arrays of texts. -/
theorem getStrings_array {l : List Json} {texts : List Str} :
    getStrings (.array l) = .ok texts ↔ l = texts.map .string := by
  have hread : getStrings (.array l) = l.mapM getString := rfl
  rw [hread]
  clear hread
  induction l generalizing texts with
  | nil =>
    have hnil : (([] : List Json).mapM getString : Outcome (List Str)) = .ok [] := rfl
    rw [hnil]
    cases texts <;> simp
  | cons v l ih =>
    rw [List.mapM_cons, Outcome.bind_eq_ok]
    constructor
    · rintro ⟨s, hs, hrest⟩
      obtain ⟨rest, hl, hcons⟩ := Outcome.bind_eq_ok.mp hrest
      obtain rfl := Except.ok.inj hcons
      cases v with
      | string t =>
        obtain rfl := Except.ok.inj hs
        rw [ih.mp hl, List.map_cons]
      | _ => cases hs
    · intro heq
      obtain ⟨s, rest, rfl, rfl, rfl⟩ := List.map_eq_cons_iff.mp heq.symm
      exact ⟨s, rfl, Outcome.bind_eq_ok.mpr ⟨rest, ih.mpr rfl, rfl⟩⟩

/-- Values that are all texts are the values of some texts. -/
lemma exists_map_string {l : List Json} (h : ∀ v ∈ l, ∃ text, v = .string text) :
    ∃ texts : List Str, l = texts.map .string := by
  induction l with
  | nil => exact ⟨[], rfl⟩
  | cons v l ih =>
    obtain ⟨text, rfl⟩ := h v (by simp)
    obtain ⟨texts, rfl⟩ := ih fun v hv => h v (by simp [hv])
    exact ⟨text :: texts, rfl⟩

/-- `data[key] = value`. -/
def setMember (data : Json) (key : Str) (value : Json) : Outcome Json :=
  match data with
  | .null => .ok (.object (Fields.set [] key value))
  | .object fields => .ok (.object (Fields.set fields key value))
  | data =>
    .error (.json 305 (str "cannot use operator[] with a string argument with " ++ data.typeName))

/-! ## Reading what was written -/

@[simp] lemma getInt64_numberInteger (n : Int64) : getInt64 (.numberInteger n) = .ok n := by
  simp [getInt64, getNumber]

@[simp] lemma getSize_numberUnsigned (n : UInt64) : getSize (.numberUnsigned n) = .ok n := by
  simp [getSize, getNumber]

@[simp] lemma getUInt8_ofUInt8 (b : UInt8) : getUInt8 (ofUInt8 b) = .ok b := by
  simp [getUInt8, ofUInt8, getNumber]

@[simp] lemma getBytes_ofBytes (data : Bytes) : getBytes (ofBytes data) = .ok data := by
  have h : (data.map ofUInt8).mapM getUInt8 = .ok (data.map id) :=
    mapM_map data fun b _ => getUInt8_ofUInt8 b
  rw [List.map_id] at h
  exact h

section Object

variable (m : Fields) (key : Str)

@[simp] lemma contains_object : (object m).contains key = (m.find key).isSome := rfl

@[simp] lemma find?_object : (object m).find? key = m.find key := rfl

@[simp] lemma at_object : (object m).at key = readAt key (m.find key) := rfl

@[simp] lemma readAt_some (v : Json) : readAt key (some v) = .ok v := rfl

/-- Reading an optional member of an object. -/
@[simp] theorem optional_object (read : Json → Outcome α) :
    (object m).optional key read = readOption read (m.find key) := by
  cases h : m.find key with
  | none => simp [optional, readOption, h]
  | some v => simp [optional, readOption, h]

/-- Reading a member of an object, or its default. -/
@[simp] theorem orDefault_object (read : Json → Outcome α) (fallback : α) :
    (object m).orDefault key read fallback = readOr read fallback (m.find key) := by
  cases h : m.find key with
  | none => simp [orDefault, h]
  | some v => simp [orDefault, readOr, h]

/-- `value` on an object. -/
@[simp] theorem value_object (get : Json → Outcome α) (fallback : α) :
    (object m).value key get fallback = readOr get fallback (m.find key) := by
  rw [value]
  cases m.find key <;> rfl

end Object

/-- An optional member that was written is read back as what its reader makes of it. -/
lemma readOption_map {β : Type} {o : Option β} {write : β → Json} {read : Json → Outcome α}
    {f : β → α} (h : ∀ b, o = some b → read (write b) = .ok (f b)) :
    readOption read (o.map write) = .ok (o.map f) := by
  cases o with
  | none => rfl
  | some b =>
    rw [Option.map_some, readOption, h b rfl]
    rfl

/-- A list that is written unless it is empty is read back. -/
lemma readOr_nil (read : Json → Outcome (List α)) {l : List α} {v : Json}
    (h : read v = .ok l) : readOr read [] (if l = [] then none else some v) = .ok l := by
  by_cases hl : l = []
  · rw [if_pos hl, readOr_none, hl]
  · rw [if_neg hl, readOr_some, h]

/-- An optional text that was written is read back. -/
@[simp] lemma readOption_getString (o : Option Str) :
    readOption getString (o.map .string) = .ok o := by
  have h : readOption getString (o.map .string) = .ok (o.map id) := readOption_map fun _ _ => rfl
  rwa [Option.map_id, id_eq] at h

/-- An optional 64-bit number that was written is read back. -/
@[simp] lemma readOption_getInt64 (o : Option Int64) :
    readOption getInt64 (o.map .numberInteger) = .ok o := by
  have h : readOption getInt64 (o.map .numberInteger) = .ok (o.map id) :=
    readOption_map fun n _ => getInt64_numberInteger n
  rwa [Option.map_id, id_eq] at h

/-- An optional number that was written is read back. -/
@[simp] lemma readOption_getInt (o : Option Int32) :
    readOption getInt (o.map ofInt) = .ok o := by
  have h : readOption getInt (o.map ofInt) = .ok (o.map id) :=
    readOption_map fun b _ => getInt_ofInt b
  rwa [Option.map_id, id_eq] at h

/-! ## Members that are rejected -/

/-- The fault with which the reader of the member `key` ends, if the member is there and it does. -/
def rejection (data : Json) (key : Str) (read : Json → Outcome α) : Option Fault :=
  (data.find? key).bind fun v => (read v).fault

/-- Every value is accepted as it is. -/
lemma rejection_ok (data : Json) (key : Str) : data.rejection key .ok = none := by
  rw [rejection]
  cases data.find? key <;> rfl

/-- What is made of the value that was read does not matter. -/
lemma rejection_map {β : Type} (data : Json) (key : Str) (read : Json → Outcome α) (f : α → β) :
    (data.rejection key fun v => do .ok (f (← read v))) = data.rejection key read := by
  simp only [rejection, Outcome.fault_map]

section Object

variable (m : Fields) (key : Str)

variable {β : Type} {o : Option Fault}

/-- An optional member of an object is read before others. -/
lemma fault_optional {read : Json → Outcome α} {f : Option α → Outcome β}
    (h : ∀ a, (f a).fault = o) :
    ((object m).optional key read >>= f).fault = ((object m).rejection key read).or o := by
  rw [Outcome.fault_bind h, optional_object, rejection, find?_object]
  cases m.find key with
  | none => rfl
  | some v => exact congrArg (Option.or · o) (Outcome.fault_map (read v) some)

/-- A member of an object with a default is read before others. -/
lemma fault_orDefault {read : Json → Outcome α} {fallback : α} {f : α → Outcome β}
    (h : ∀ a, (f a).fault = o) :
    ((object m).orDefault key read fallback >>= f).fault =
      ((object m).rejection key read).or o := by
  rw [Outcome.fault_bind h, orDefault_object, rejection, find?_object]
  cases m.find key <;> rfl

/-- A member of an object that is asked for with `value` is read before others. -/
lemma fault_value {get : Json → Outcome α} {fallback : α} {f : α → Outcome β}
    (h : ∀ a, (f a).fault = o) :
    ((object m).value key get fallback >>= f).fault = ((object m).rejection key get).or o := by
  rw [Outcome.fault_bind h, value_object, rejection, find?_object]
  cases m.find key <;> rfl

end Object

end Json

end RaCommon
