import RaCommon.Runtime.Json
import RaCommon.Util.RandomUtil

set_option relaxedAutoImplicit false
set_option autoImplicit false

/-!
# Multipart bodies (`multipart.hpp`)

## Main definitions

* `RaCommon.Multipart` — a body under construction, with `new`, `finish`, `toJson` and `fromJson`.
* `RaCommon.Multipart.Call`, `RaCommon.Multipart.run` — the calls that append to it.

## Main results

* `RaCommon.Multipart.body_run` — what some calls append.
* `RaCommon.Multipart.fromJson_toJson` — what is read back is the body builder without its body.
-/

namespace RaCommon

/-- `Multipart`. -/
structure Multipart where
  boundary : Str
  charset : Option Str := none
  body : Str := []

namespace Multipart

/-- `kLineFeed`. -/
def kLineFeed : Str := str "\r\n"

lemma kLineFeed_ne_nil : kLineFeed ≠ [] := List.cons_ne_nil _ _

/-- The constructor of `Multipart`, with the bytes that a missing boundary is made of. -/
def new (bytes : {b : Bytes // b.length = 32}) (charset boundary : Option Str) : Multipart :=
  { boundary := boundary.getD (randomAlphanumeric bytes), charset }

/-- `AddFormField`. -/
def addFormField (m : Multipart) (name value : Str) : Multipart :=
  let charset := m.charset.getD (str "UTF-8")
  { m with body := m.body ++
      (str "--" ++ m.boundary ++ kLineFeed) ++
      (str "Content-Disposition: form-data; name=\"" ++ name ++ str "\"" ++ kLineFeed) ++
      (str "Content-Type: text/plain; charset=" ++ charset ++ kLineFeed ++ kLineFeed) ++
      (value ++ kLineFeed) }

/-- `AddFilePart`. -/
def addFilePart (m : Multipart) (fieldName : Str) (fileName : Option Str) : Multipart :=
  { m with body := m.body ++
      (str "--" ++ m.boundary ++ kLineFeed) ++
      (match fileName with
        | some name => str "Content-Disposition: file; filename=\"" ++ name ++ str "\"" ++ kLineFeed
        | none =>
          str "Content-Disposition: file; name=\"" ++ fieldName ++ str "\";" ++ kLineFeed) ++
      (str "Content-Type: application/octet-stream" ++ kLineFeed) ++
      (str "Content-Transfer-Encoding: binary" ++ kLineFeed ++ kLineFeed) }

/-- `AddHeaderField`. -/
def addHeaderField (m : Multipart) (name value : Str) : Multipart :=
  { m with body := m.body ++ (name ++ str ": " ++ value ++ kLineFeed) }

/-- `AppendRaw`. -/
def appendRaw (m : Multipart) (text : Str) : Multipart := { m with body := m.body ++ text }

/-- `Finish`. -/
def finish (m : Multipart) : Str := m.body ++ str "--" ++ m.boundary ++ str "--" ++ kLineFeed

/-! ## Runs -/

/-- A call that appends to the body. -/
inductive Call where
  | addFormField (name value : Str)
  | addFilePart (fieldName : Str) (fileName : Option Str)
  | addHeaderField (name value : Str)
  | appendRaw (text : Str)
  deriving DecidableEq

/-- What a call does. -/
def step (m : Multipart) : Call → Multipart
  | .addFormField name value => m.addFormField name value
  | .addFilePart fieldName fileName => m.addFilePart fieldName fileName
  | .addHeaderField name value => m.addHeaderField name value
  | .appendRaw text => m.appendRaw text

/-- What some calls do, one after the other. -/
def run (m : Multipart) (calls : List Call) : Multipart := calls.foldl step m

/-- What a call appends to a body without anything in it. -/
def appended (m : Multipart) (call : Call) : Str := ({ m with body := [] }.step call).body

/-- **A call appends** to the body, and leaves the rest. -/
theorem step_eq (m : Multipart) (call : Call) :
    m.step call = { m with body := m.body ++ m.appended call } := by
  cases call with
  | addFormField name value => simp [step, appended, addFormField]
  | addFilePart fieldName fileName => simp [step, appended, addFilePart]
  | addHeaderField name value => simp [step, appended, addHeaderField]
  | appendRaw text => simp [step, appended, appendRaw]

/-- What is appended by a call does not depend on the calls before it. -/
lemma appended_step (m : Multipart) (call : Call) : (m.step call).appended = m.appended := by
  rw [step_eq]
  funext call'
  rfl

/-- **What some calls append**, and that they leave the rest. -/
theorem body_run (m : Multipart) (calls : List Call) :
    m.run calls = { m with body := m.body ++ calls.flatMap m.appended } := by
  induction calls generalizing m with
  | nil => simp [run]
  | cons call calls ih =>
    have hstep : m.run (call :: calls) = (m.step call).run calls := rfl
    rw [hstep, ih, appended_step, step_eq, List.flatMap_cons, List.append_assoc]

/-- Only an empty text appends nothing. -/
lemma appended_eq_nil {m : Multipart} {call : Call} :
    m.appended call = [] ↔ call = .appendRaw [] := by
  cases call with
  | addFormField name value => simp [appended, step, addFormField, kLineFeed_ne_nil]
  | addFilePart fieldName fileName => simp [appended, step, addFilePart, kLineFeed_ne_nil]
  | addHeaderField name value => simp [appended, step, addHeaderField, kLineFeed_ne_nil]
  | appendRaw text => simp [appended, step, appendRaw]

/-- **When the body stays empty**: every call appends an empty text. -/
theorem body_run_eq_nil {m : Multipart} {calls : List Call} :
    (m.run calls).body = [] ↔ m.body = [] ∧ ∀ call ∈ calls, call = .appendRaw [] := by
  rw [body_run]
  simp only [List.append_eq_nil_iff, List.flatMap_eq_nil_iff, appended_eq_nil]

/-! ## Reading what was written -/

/-- `Multipart::ToJson`. -/
def toJson (m : Multipart) : Json :=
  .object <| (Fields.of [(str "boundary", .string m.boundary)]).setOpt (str "charset") m.charset
    .string

/-- `Multipart::FromJson`. -/
def fromJson (data : Json) : Outcome Multipart := do
  let charset ← data.optional (str "charset") Json.getString
  let boundary ← (← data.at (str "boundary")).getString
  .ok { boundary, charset }

/-- What a multipart body becomes when it is written and read. -/
def reloaded (m : Multipart) : Multipart := { m with body := [] }

/-- **A multipart body is read back**, but for what was appended to it. -/
@[simp] theorem fromJson_toJson (m : Multipart) : fromJson m.toJson = .ok m.reloaded := by
  simp [fromJson, toJson, reloaded]

/-- An optional multipart body that was written is read back. -/
@[simp] lemma readOption_multipart (o : Option Multipart) :
    Json.readOption fromJson (o.map toJson) = .ok (o.map reloaded) :=
  Json.readOption_map fun m _ => fromJson_toJson m

/-- Where nothing was appended nothing changes. -/
lemma map_reloaded_eq {o : Option Multipart} (h : ∀ m, o = some m → m.body = []) :
    o.map reloaded = o := by
  cases o with
  | none => rfl
  | some m =>
    obtain ⟨boundary, charset, body⟩ := m
    obtain rfl : body = [] := h _ rfl
    rfl

end Multipart

end RaCommon
