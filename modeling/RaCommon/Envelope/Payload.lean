import RaCommon.Envelope.Envelope

set_option relaxedAutoImplicit false
set_option autoImplicit false

/-!
# The payload of an envelope (`envelope.hpp`)

The calls that write to the document inside an envelope, and what is read of it afterwards. All of
them share one bucket of the document, which may have been made by the sender of the envelope.

## Main definitions

* `RaCommon.Envelope.addContent` and its siblings — the calls that write, and those that read.
* `RaCommon.Envelope.PayloadCall`, `RaCommon.Envelope.runPayload` — a sequence of writing calls.
* `RaCommon.Envelope.Accumulates` — what a sequence of calls should do.

## Main results

* `RaCommon.Envelope.accumulates_iff` — for which payloads it does so.
-/

namespace RaCommon

namespace Envelope

/-! ## Calls -/

/-- `Doc`. -/
def doc (e : Envelope) : Option DocumentMessage :=
  match e.message with
  | some (.document d) => some d
  | _ => none

/-- A call that changes the document: whether there is one, and the envelope after it. -/
def changeDoc (e : Envelope) (change : DocumentMessage → Outcome DocumentMessage) :
    Outcome (Bool × Envelope) :=
  match e.doc with
  | none => .ok (false, e)
  | some d => do .ok (true, { e with message := some (.document (← change d)) })

/-- A call that reads a member of the document. -/
def value (e : Envelope) (name : Str) : Outcome Json :=
  match e.doc with
  | none => .ok .null
  | some d => d.get name

/-- `AddContent`. -/
def addContent (e : Envelope) (content : Json) : Outcome (Bool × Envelope) :=
  e.changeDoc fun d => d.put kContent content

/-- `Content`. -/
def content (e : Envelope) : Outcome Json := e.value kContent

/-- `AddEntity`. -/
def addEntity (e : Envelope) (entity : Json) : Outcome (Bool × Envelope) :=
  e.changeDoc fun d => d.put kEntity entity

/-- `Entity`. -/
def entity (e : Envelope) : Outcome Json := e.value kEntity

/-- `AddNvp`. -/
def addNvp (e : Envelope) (name : Str) (value : Json) : Outcome (Bool × Envelope) :=
  e.changeDoc fun d => d.put name value

/-- What `AddException` does to the bucket: an array gets one more element, anything else is
replaced. -/
def pushException (msg : Str) (bucket : Json) : Outcome Json :=
  match bucket.find? kExceptions with
  | some (.array elems) => bucket.setMember kExceptions (.array (elems ++ [.string msg]))
  | _ => bucket.setMember kExceptions (.array [.string msg])

/-- `AddException`. -/
def addException (e : Envelope) (msg : Str) : Outcome (Bool × Envelope) :=
  e.changeDoc fun d => d.changePrimary (pushException msg)

/-- `Exceptions`. -/
def exceptions (e : Envelope) : Outcome (List Str) :=
  match e.doc with
  | none => .ok []
  | some d => do
    match ← d.get kExceptions with
    | .array elems => (Json.array elems).getStrings
    | _ => .ok []

/-! ## Sequences of calls -/

/-- A call that writes to the document. -/
inductive PayloadCall where
  | addContent (content : Json)
  | addEntity (entity : Json)
  | addNvp (name : Str) (value : Json)
  | addException (msg : Str)

/-- A call. -/
def stepPayload (e : Envelope) : PayloadCall → Outcome (Bool × Envelope)
  | .addContent content => e.addContent content
  | .addEntity entity => e.addEntity entity
  | .addNvp name value => e.addNvp name value
  | .addException msg => e.addException msg

/-- Some calls: what each has returned, and the envelope after them. -/
def runPayload : Envelope → List PayloadCall → Outcome (List Bool × Envelope)
  | e, [] => .ok ([], e)
  | e, call :: calls => do
    let r ← e.stepPayload call
    let rest ← runPayload r.2 calls
    .ok (r.1 :: rest.1, rest.2)

/-- What a call writes under a key; an exception is not written but added. -/
def PayloadCall.written (key : Str) : PayloadCall → Option Json
  | .addContent content => if key = kContent then some content else none
  | .addEntity entity => if key = kEntity then some entity else none
  | .addNvp name value => if key = name then some value else none
  | .addException _ => none

/-- The last value written under a key. -/
def lastWritten (key : Str) : List PayloadCall → Option Json
  | [] => none
  | call :: calls => (lastWritten key calls).or (call.written key)

/-- The messages added. -/
def addedMessages : List PayloadCall → List Str
  | [] => []
  | .addException msg :: calls => msg :: addedMessages calls
  | _ :: calls => addedMessages calls

/-- The elements of the array of exceptions inside a document, if there is one. -/
def exceptionElems (d : DocumentMessage) : List Json :=
  match d.members.find kExceptions with
  | some (.array elems) => elems
  | _ => []

/-- What a sequence of calls on an envelope with the document `d` should do: every call returns
`true`; afterwards the content, the entity and every other value is the last one written under its
key, or the original one where none was written; and the exceptions are those that were there
followed by the added messages. -/
def Accumulates (e : Envelope) (d : DocumentMessage) (calls : List PayloadCall) : Prop :=
  ∃ e', e.runPayload calls = .ok (calls.map fun _ => true, e') ∧
    (∀ key, key ≠ kExceptions ∨ addedMessages calls = [] →
      ∃ original, e.value key = .ok original ∧
        e'.value key = .ok ((lastWritten key calls).getD original)) ∧
    (∃ original, e.content = .ok original ∧
      e'.content = .ok ((lastWritten kContent calls).getD original)) ∧
    (∃ original, e.entity = .ok original ∧
      e'.entity = .ok ((lastWritten kEntity calls).getD original)) ∧
    ∃ messages, e'.exceptions = .ok messages ∧
      messages.map .string = exceptionElems d ++ (addedMessages calls).map .string

/-! ## One call -/

/-- The document inside an envelope is replaced. -/
def withDoc (e : Envelope) (d : DocumentMessage) : Envelope :=
  { e with message := some (.document d) }

@[simp] lemma doc_withDoc (e : Envelope) (d : DocumentMessage) : (e.withDoc d).doc = some d := rfl

/-- A document that is replaced twice. -/
@[simp] lemma withDoc_withDoc (e : Envelope) (d d' : DocumentMessage) :
    (e.withDoc d).withDoc d' = e.withDoc d' := rfl

/-- A member that is assigned to with an element more. -/
lemma pushException_eq (msg : Str) (d : DocumentMessage) : pushException msg d.primary =
    d.primary.setMember kExceptions (.array (exceptionElems d ++ [.string msg])) := by
  have hmembers : d.primary.find? kExceptions = d.members.find kExceptions := by
    rw [DocumentMessage.members]
    cases d.primary <;> rfl
  rw [pushException, exceptionElems, hmembers]
  split
  · rfl
  · rfl

/-- The member that a call assigns to, and the value it assigns. -/
def PayloadCall.assigns (d : DocumentMessage) : PayloadCall → Str × Json
  | .addContent content => (kContent, content)
  | .addEntity entity => (kEntity, entity)
  | .addNvp name value => (name, value)
  | .addException msg => (kExceptions, .array (exceptionElems d ++ [.string msg]))

/-- **Every call assigns to a member** of the document's primary bucket. -/
theorem stepPayload_eq {e : Envelope} {d : DocumentMessage} (h : e.doc = some d)
    (call : PayloadCall) : ∃ change : Json → Outcome Json,
      (e.stepPayload call = do .ok (true, e.withDoc (← d.changePrimary change))) ∧
      change d.primary = d.primary.setMember (call.assigns d).1 (call.assigns d).2 := by
  have hchange : ∀ change,
      e.changeDoc change = (do .ok (true, e.withDoc (← change d)) : Outcome (Bool × Envelope)) := by
    intro change
    rw [changeDoc, h]
    rfl
  cases call with
  | addContent content => exact ⟨_, hchange _, rfl⟩
  | addEntity entity => exact ⟨_, hchange _, rfl⟩
  | addNvp name value => exact ⟨_, hchange _, rfl⟩
  | addException msg => exact ⟨_, hchange _, pushException_eq msg d⟩

/-- What a call does to the members that are no exceptions. -/
lemma find_assigns {d d' : DocumentMessage} {call : PayloadCall}
    (h : d'.members = d.members.set (call.assigns d).1 (call.assigns d).2) {key : Str}
    (hkey : key ≠ kExceptions ∨ addedMessages [call] = []) :
    d'.members.find key = (call.written key).or (d.members.find key) := by
  have hset : ∀ (name : Str) (value : Json), (d.members.set name value).find key =
      (if key = name then some value else none).or (d.members.find key) := by
    intro name value
    by_cases hname : key = name
    · subst hname
      simp
    · simp [hname]
  rw [h]
  cases call with
  | addContent content => exact hset _ _
  | addEntity entity => exact hset _ _
  | addNvp name value => exact hset _ _
  | addException msg =>
    have hne : key ≠ kExceptions := hkey.resolve_right (List.cons_ne_nil msg [])
    exact Fields.find_set_of_ne _ hne _

/-- What a call does to the exceptions. -/
lemma exceptionElems_assigns {d d' : DocumentMessage} {call : PayloadCall}
    (h : d'.members = d.members.set (call.assigns d).1 (call.assigns d).2)
    (hname : ∀ name value, call = .addNvp name value → name ≠ kExceptions) :
    exceptionElems d' = exceptionElems d ++ (addedMessages [call]).map .string := by
  have hother : ∀ (name : Str) (value : Json), name ≠ kExceptions →
      d'.members = d.members.set name value → exceptionElems d' = exceptionElems d ++ [] := by
    intro name value hne h
    rw [exceptionElems, h, Fields.find_set_of_ne _ (Ne.symm hne), List.append_nil]
    rfl
  cases call with
  | addContent content => exact hother kContent content kContent_ne_kExceptions h
  | addEntity entity => exact hother kEntity entity kEntity_ne_kExceptions h
  | addNvp name value => exact hother _ _ (hname name value rfl) h
  | addException msg =>
    rw [exceptionElems, h]
    simp [PayloadCall.assigns, addedMessages]

/-! ## Sequences of calls on a payload that can be assigned to -/

/-- A call adds its message in front of those that are added later. -/
lemma addedMessages_cons (call : PayloadCall) (calls : List PayloadCall) :
    addedMessages (call :: calls) = addedMessages [call] ++ addedMessages calls := by
  cases call <;> rfl

/-- **What a sequence of calls does** to a document that can be assigned to.

**Proof sketch.** By induction on the calls: each assigns to a member of the primary bucket, which
is an object from the first call on, so that the next call can assign to it again. -/
theorem runPayload_eq {e : Envelope} {d : DocumentMessage} (h : d.Assignable)
    {calls : List PayloadCall}
    (hnames : ∀ name value, .addNvp name value ∈ calls → name ≠ kExceptions) :
    ∃ d', (e.withDoc d).runPayload calls = .ok (calls.map fun _ => true, e.withDoc d') ∧
      (∀ key, key ≠ kExceptions ∨ addedMessages calls = [] →
        d'.members.find key = (lastWritten key calls).or (d.members.find key)) ∧
      exceptionElems d' = exceptionElems d ++ (addedMessages calls).map .string := by
  induction calls generalizing d with
  | nil => exact ⟨d, rfl, fun _ _ => rfl, (List.append_nil _).symm⟩
  | cons call calls ih =>
    obtain ⟨change, hstep, hchange⟩ := stepPayload_eq (doc_withDoc e d) call
    obtain ⟨d₁, hd₁, hmembers, hassign⟩ := DocumentMessage.changePrimary_eq h hchange
    have hname₁ : ∀ name value, call = .addNvp name value → name ≠ kExceptions :=
      fun name value heq => hnames name value (by simp [heq])
    obtain ⟨d', hrun, hfind, helems⟩ :=
      ih hassign fun name value hmem => hnames name value (List.mem_cons_of_mem call hmem)
    refine ⟨d', ?_, fun key hkey => ?_, ?_⟩
    · rw [hd₁, Outcome.ok_bind, withDoc_withDoc] at hstep
      rw [runPayload, hstep, Outcome.ok_bind, hrun]
      rfl
    · rw [addedMessages_cons, List.append_eq_nil_iff] at hkey
      rw [hfind key (hkey.imp_right And.right), find_assigns hmembers (hkey.imp_right And.left),
        lastWritten, Option.or_assoc]
    · rw [helems, exceptionElems_assigns hmembers hname₁, addedMessages_cons call calls,
        List.map_append, List.append_assoc]

/-- What is read of an envelope with a document. -/
lemma value_withDoc (e : Envelope) (d : DocumentMessage) (key : Str) :
    (e.withDoc d).value key = .ok ((d.members.find key).getD .null) :=
  d.get_eq key

/-- The exceptions of an envelope with a document. -/
lemma exceptions_withDoc (e : Envelope) (d : DocumentMessage) :
    (e.withDoc d).exceptions = (Json.array (exceptionElems d)).getStrings := by
  rw [exceptions, doc_withDoc]
  simp only [d.get_eq kExceptions, Outcome.ok_bind, exceptionElems]
  cases d.members.find kExceptions with
  | none => rfl
  | some v => cases v <;> rfl

/-- What is read after some calls, given what they have done to the document. -/
lemma accumulates_of_members {e : Envelope} {d d' : DocumentMessage} {calls : List PayloadCall}
    (hrun : (e.withDoc d).runPayload calls = .ok (calls.map fun _ => true, e.withDoc d'))
    (hfind : ∀ key, key ≠ kExceptions ∨ addedMessages calls = [] →
      d'.members.find key = (lastWritten key calls).or (d.members.find key))
    (helems : exceptionElems d' = exceptionElems d ++ (addedMessages calls).map .string)
    (htexts : ∀ v ∈ exceptionElems d, ∃ text, v = .string text) :
    (e.withDoc d).Accumulates d calls := by
  have hvalue : ∀ key, key ≠ kExceptions ∨ addedMessages calls = [] →
      ∃ original, (e.withDoc d).value key = .ok original ∧
        (e.withDoc d').value key = .ok ((lastWritten key calls).getD original) := by
    intro key hkey
    refine ⟨_, value_withDoc e d key, ?_⟩
    rw [value_withDoc, hfind key hkey]
    cases lastWritten key calls <;> rfl
  obtain ⟨texts, htexts⟩ := Json.exists_map_string htexts
  refine ⟨e.withDoc d', hrun, hvalue, hvalue _ (.inl kContent_ne_kExceptions),
    hvalue _ (.inl kEntity_ne_kExceptions), texts ++ addedMessages calls, ?_, ?_⟩
  · rw [exceptions_withDoc, Json.getStrings_array, helems, htexts, List.map_append]
  · rw [htexts, List.map_append]

/-! ## Which payloads accumulate -/

/-- **For which payloads the calls do what they should**: where there is any call, the primary
bucket of the document is missing, null or an object; and where there is an array of exceptions,
all of its elements are texts.

**Proof sketch.** A bucket of another kind makes the first call throw, and an element of another
kind is not a text that the call could return. Conversely the calls are assignments to the members
of one object, of which the exceptions are a member apart. -/
theorem accumulates_iff (e : Envelope) (d : DocumentMessage) (hdoc : e.message = some (.document d))
    (calls : List PayloadCall)
    (hnames : ∀ name value, .addNvp name value ∈ calls → name ≠ kExceptions) :
    e.Accumulates d calls ↔
      (calls ≠ [] → d.primary.isNull = true ∨ d.primary.isObject = true) ∧
        ∀ v ∈ exceptionElems d, ∃ text, v = .string text := by
  have he : e = e.withDoc d := by
    rw [withDoc, ← hdoc]
  rw [he]
  constructor
  · rintro ⟨e', hrun, -, -, -, messages, -, hmessages⟩
    constructor
    · intro hne
      obtain ⟨call, rest, rfl⟩ := List.exists_cons_of_ne_nil hne
      by_contra hassign
      obtain ⟨change, hstep, hchange⟩ := stepPayload_eq (doc_withDoc e d) call
      obtain ⟨fault, hfault⟩ := DocumentMessage.changePrimary_of_not_assignable hassign hchange
      rw [hfault, Outcome.error_bind] at hstep
      rw [runPayload, hstep] at hrun
      cases hrun
    · intro v hv
      have hmem : v ∈ messages.map Json.string := by
        rw [hmessages]
        exact List.mem_append_left _ hv
      obtain ⟨text, -, htext⟩ := List.mem_map.mp hmem
      exact ⟨text, htext.symm⟩
  · rintro ⟨hassign, htexts⟩
    cases calls with
    | nil => exact accumulates_of_members rfl (fun _ _ => rfl) (List.append_nil _).symm htexts
    | cons call rest =>
      obtain ⟨d', hrun, hfind, helems⟩ :=
        runPayload_eq (hassign (List.cons_ne_nil call rest)) hnames
      exact accumulates_of_members hrun hfind helems htexts

/-- `accumulates_iff` for a document whose bucket is missing. -/
theorem accumulates_iff_no_bucket :
    Accumulates { inTransit with message := some (.document { data := [] }) } { data := [] }
      [.addContent (.string (str "text")), .addException (str "first"),
        .addException (str "second")] :=
  (accumulates_iff _ { data := [] } rfl _ (by simp)).mpr
    ⟨fun _ => .inr rfl, fun _ hv => absurd hv List.not_mem_nil⟩

/-- A document that is read from a payload whose only bucket is a number throws at the first
call. -/
theorem accumulates_number_bucket :
    ¬ ∀ (draws : Draws) (data : Json) (e : Envelope) (d : DocumentMessage)
        (calls : List PayloadCall), fromJson draws data = .ok e → e.message = some (.document d) →
      (∀ name value, .addNvp name value ∈ calls → name ≠ kContent ∧ name ≠ kEntity ∧
        name ≠ kExceptions) → e.Accumulates d calls := by
  intro hall
  let d : DocumentMessage := { data := [.numberUnsigned 5] }
  let draws : Draws := fun _ => ⟨⟨List.replicate 16 0, rfl⟩, 0⟩
  let e : Envelope := { inTransit with message := some (.document d) }
  have hread := fromJson_toJson draws e
  obtain ⟨e', hrun, -⟩ := hall draws e.toJson e.reloaded d [.addContent .null] hread rfl (by simp)
  cases hrun

end Envelope

end RaCommon
