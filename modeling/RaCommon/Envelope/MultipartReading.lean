import RaCommon.Envelope.Multipart
import RaCommon.Library.Delimited

set_option relaxedAutoImplicit false
set_option autoImplicit false

/-!
# Reading multipart bodies (`multipart.hpp`)

A body of form fields and files, read by the rule of RFC 2046: a delimiter line counts only at the
start of the body or right after a line end, and the line end before it belongs to it. A part goes
by the parameter `name` of its disposition.

## Main definitions

* `RaCommon.Multipart.readParts`, `RaCommon.Multipart.epilogue` — the reader.
* `RaCommon.Multipart.Part` — a form field or a file, with the calls that add it.
* `RaCommon.Multipart.ReadsBack` — the parts are read back.
* `RaCommon.Multipart.Part.Good` — a part that keeps the rules of the format.

## Main results

* `RaCommon.Multipart.lines_good` — the lines of a part that keeps the rules.
* `RaCommon.Multipart.length_le_sections` — a body has at least as many sections as parts.
* `RaCommon.Multipart.good_of_readParts` — a part that is read back keeps the rules.
* `RaCommon.Multipart.readsBack_iff` — when the parts are read back.
-/

namespace RaCommon.Multipart

open Delimited

/-! ## The reader -/

/-- `--` and the boundary. -/
def dash (boundary : Str) : Str := str "--" ++ boundary

/-- A line with nothing but padding behind a mark. -/
def MarkLine (mark line : Str) : Prop :=
  mark <+: line ∧ ∀ c ∈ line.drop mark.length, c = 32 ∨ c = 9

instance (mark line : Str) : Decidable (MarkLine mark line) :=
  have : Decidable (∀ c ∈ line.drop mark.length, c = 32 ∨ c = 9) := List.decidableBAll _ _
  inferInstanceAs (Decidable (_ ∧ _))

/-- A delimiter line. -/
def Delimits (boundary line : Str) : Prop := MarkLine (dash boundary) line

instance (boundary : Str) : DecidablePred (Delimits boundary) :=
  fun line => inferInstanceAs (Decidable (MarkLine _ line))

/-- A closing delimiter line. -/
def Closes (boundary line : Str) : Prop := MarkLine (dash boundary ++ str "--") line

instance (boundary : Str) : DecidablePred (Closes boundary) :=
  fun line => inferInstanceAs (Decidable (MarkLine _ line))

/-- A line that is not empty and does not delimit. -/
def Plain (boundary line : Str) : Prop :=
  line ≠ [] ∧ ¬Delimits boundary line ∧ ¬Closes boundary line

instance (boundary line : Str) : Decidable (Plain boundary line) :=
  inferInstanceAs (Decidable (_ ∧ _ ∧ _))

/-- The quoted value that a field of a header gives to a parameter. -/
def valueOf (key field : Str) : Option Str :=
  let field := field.dropWhile (· = 32)
  if (key ++ str "=\"").isPrefixOf field then
    some ((field.drop (key.length + 2)).takeWhile (· ≠ 34))
  else none

/-- A parameter of a header, whose fields end at the semicolons that are not inside quotes. -/
def parameter (key header : Str) : Option Str :=
  (fields 59 34 false header).findSome? (valueOf key)

/-- The name and the content of a part: the headers end at the first empty line, and the name is the
parameter `name` of the disposition. -/
def readPart (ls : List Str) : Option Str × Str :=
  (((ls.takeWhile (· ≠ [])).find? (str "Content-Disposition:").isPrefixOf).bind
      (parameter (str "name")),
    kLineFeed.intercalate ((ls.dropWhile (· ≠ [])).drop 1))

/-- The parts of a body. -/
def readParts (boundary text : Str) : Option (List (Option Str × Str)) :=
  (sections (Delimits boundary) (Closes boundary) (lines 13 10 text)).map fun r => r.2.map readPart

/-- The text behind the closing delimiter line. -/
def epilogue (boundary text : Str) : Str :=
  kLineFeed.intercalate (Delimited.epilogue (Closes boundary) (lines 13 10 text))

/-! ## Parts -/

/-- A form field, or a file with its bytes. -/
inductive Part where
  | field (name value : Str)
  | file (fieldName : Str) (fileName : Option Str) (bytes : Str)
  deriving DecidableEq

/-- The character set that form fields name. -/
def charsetName (m : Multipart) : Str := m.charset.getD (str "UTF-8")

namespace Part

/-- The calls that add a part. -/
def calls : Part → List Call
  | field name value => [.addFormField name value]
  | file fieldName fileName bytes => [.addFilePart fieldName fileName, .appendRaw bytes]

/-- The name of a part: that of its field in the form. -/
def name : Part → Str
  | field name _ => name
  | file fieldName _ _ => fieldName

/-- The content of a part. -/
def content : Part → Str
  | field _ value => value
  | file _ _ bytes => bytes

/-- No quote, carriage return or line feed. -/
def IsName (s : Str) : Prop := (34 : UInt8) ∉ s ∧ (13 : UInt8) ∉ s ∧ (10 : UInt8) ∉ s

/-- The names are names, and the delimiter does not occur in the content. -/
def WellFormed (boundary : Str) : Part → Prop
  | field name value => IsName name ∧ ¬dash boundary <:+: value
  | file fieldName fileName bytes =>
    IsName fieldName ∧ (∀ name, fileName = some name → IsName name) ∧ ¬dash boundary <:+: bytes

/-- A part that keeps the rules of the format: the headers of a form field do not end, and no line
delimits, in the name of the character set; a file has no bytes, and no file name that is written in
the place of the name. -/
def Good (m : Multipart) : Part → Prop
  | field _ _ => ∀ line ∈ (lines 13 10 m.charsetName).tail, Plain m.boundary line
  | file _ fileName bytes => fileName = none ∧ bytes = []

end Part

/-- The parts that are added to a body are read back, in their order and each with its own name and
content, and the closing delimiter ends the body. -/
def ReadsBack (m : Multipart) (parts : List Part) : Prop :=
  let text := (m.run (parts.flatMap Part.calls)).finish
  readParts m.boundary text = some (parts.map fun part => (some part.name, part.content)) ∧
    epilogue m.boundary text = []

/-! ## What is written -/

/-- The first header of a part. -/
def disposition : Part → Str
  | .field name _ => str "Content-Disposition: form-data; name=\"" ++ name ++ str "\""
  | .file _ (some name) _ => str "Content-Disposition: file; filename=\"" ++ name ++ str "\""
  | .file fieldName none _ => str "Content-Disposition: file; name=\"" ++ fieldName ++ str "\";"

/-- The lines of the other headers of a part. -/
def otherHeaders (m : Multipart) : Part → List Str
  | .field _ _ => lines 13 10 (str "Content-Type: text/plain; charset=" ++ m.charsetName)
  | .file _ _ _ =>
    [str "Content-Type: application/octet-stream", str "Content-Transfer-Encoding: binary"]

/-- The lines of the headers of a part. -/
def headers (m : Multipart) (part : Part) : List Str := disposition part :: otherHeaders m part

/-- What is written behind the headers of a part: only a form field ends its last line. -/
def written : Part → Str
  | .field _ value => value ++ kLineFeed
  | .file _ _ bytes => bytes

/-- **What the calls for a part append**: a delimiter line, the headers, an empty line, and what is
behind the headers. -/
theorem flatMap_appended (m : Multipart) (part : Part) : part.calls.flatMap m.appended =
    (dash m.boundary :: headers m part ++ [[]]).flatMap (· ++ kLineFeed) ++ written part := by
  cases part with
  | field name value =>
    have hlines := flatMap_lines (a := 13) (b := 10)
      (str "Content-Type: text/plain; charset=" ++ m.charset.getD (str "UTF-8"))
    rw [show [13, 10] = kLineFeed from rfl] at hlines
    simp [Part.calls, appended, step, addFormField, dash, headers, disposition, otherHeaders,
      written, hlines, charsetName]
  | file fieldName fileName bytes =>
    cases fileName with
    | none =>
      simp [Part.calls, appended, step, addFilePart, appendRaw, dash, headers, disposition,
        otherHeaders, written]
    | some name =>
      simp [Part.calls, appended, step, addFilePart, appendRaw, dash, headers, disposition,
        otherHeaders, written]

/-- Some parts and the closing delimiter line. -/
def text (m : Multipart) (parts : List Part) : Str :=
  parts.flatMap (fun part => part.calls.flatMap m.appended) ++
    (dash m.boundary ++ str "--" ++ kLineFeed)

/-- A part in front of others. -/
lemma text_cons (m : Multipart) (part : Part) (parts : List Part) :
    text m (part :: parts) = part.calls.flatMap m.appended ++ text m parts := by
  rw [text, text, List.flatMap_cons, List.append_assoc]

/-- **What is written of some parts.** -/
theorem finish_run {m : Multipart} (hbody : m.body = []) (parts : List Part) :
    (m.run (parts.flatMap Part.calls)).finish = text m parts := by
  rw [finish, body_run, hbody, List.nil_append, List.flatMap_assoc, text]
  simp [dash]

/-- What is written begins with a hyphen. -/
lemma head?_text (m : Multipart) (parts : List Part) : (text m parts).head? = some 45 := by
  cases parts with
  | nil => rfl
  | cons part parts => rw [text_cons, flatMap_appended]; rfl

/-! ## Lines that delimit -/

/-- A line that delimits begins with the delimiter. -/
lemma dash_isPrefix {boundary line : Str} (h : Delimits boundary line ∨ Closes boundary line) :
    dash boundary <+: line :=
  h.elim (fun hdelimits => hdelimits.1) fun hcloses => (List.prefix_append _ _).trans hcloses.1

/-- A line in a text without the delimiter does not delimit. -/
lemma not_delimits_of_infix {boundary s line : Str} (hs : ¬dash boundary <:+: s)
    (hline : line <:+: s) : ¬Delimits boundary line ∧ ¬Closes boundary line :=
  not_or.mp fun h => hs ((dash_isPrefix h).isInfix.trans hline)

/-- A line that does not begin with a hyphen does not delimit. -/
lemma not_delimits_of_head {boundary line : Str} (h : line.head? ≠ some 45) :
    ¬Delimits boundary line ∧ ¬Closes boundary line := by
  refine not_or.mp fun hline => ?_
  obtain ⟨t, rfl⟩ := dash_isPrefix hline
  exact h rfl

/-- The delimiter delimits. -/
lemma delimits_dash (boundary : Str) : Delimits boundary (dash boundary) :=
  ⟨List.prefix_refl _, by simp⟩

/-- The delimiter does not close. -/
lemma not_closes_dash (boundary : Str) : ¬Closes boundary (dash boundary) := by
  intro h
  have hlen := h.1.length_le
  rw [List.length_append] at hlen
  exact absurd hlen (by simp [show (str "--").length = 2 from rfl])

/-- The delimiter with two hyphens behind it closes. -/
lemma closes_dash (boundary : Str) : Closes boundary (dash boundary ++ str "--") :=
  ⟨List.prefix_refl _, by simp⟩

/-- A text without a carriage return has one line. -/
lemma not_infix_of_not_mem {s : Str} (h : (13 : UInt8) ∉ s) : ¬[13, 10] <:+: s :=
  fun hin => h (hin.subset List.mem_cons_self)

/-- The delimiter fits on a line if the boundary does. -/
lemma not_infix_dash {boundary : Str} (h : ¬kLineFeed <:+: boundary) :
    ¬[13, 10] <:+: dash boundary := by
  intro hin
  refine h ?_
  rw [show dash boundary = 45 :: 45 :: boundary from rfl, List.infix_cons_iff,
    List.infix_cons_iff] at hin
  rcases hin with hfirst | hsecond | hin
  · exact absurd (List.cons_prefix_cons.mp hfirst).1 (by decide)
  · exact absurd (List.cons_prefix_cons.mp hsecond).1 (by decide)
  · exact hin

/-- The lines of a text that begins with the delimiter. -/
lemma lines_dash_append {boundary : Str} (h : ¬kLineFeed <:+: boundary) {t : Str} (hne : t ≠ [])
    (hhead : t.head? ≠ some 10) :
    lines 13 10 (dash boundary ++ t) = (lines 13 10 t).modifyHead (dash boundary ++ ·) := by
  obtain ⟨ls, l, hls, happend⟩ := exists_lines_append (a := 13) (b := 10) (dash boundary)
  rw [lines_eq_singleton (not_infix_dash h), ← List.nil_append [dash boundary]] at hls
  obtain ⟨rfl, hlast⟩ := List.append_inj' hls rfl
  obtain rfl := List.singleton_inj.mp hlast
  rw [happend t hne hhead, List.nil_append]

/-! ## Headers -/

/-- The name that is written of a part: none, where a file name is written in its place. -/
def Part.writtenName : Part → Option Str
  | .file _ (some _) _ => none
  | part => some part.name

/-- A quoted name is the value of the parameter. -/
lemma valueOf_name {name : Str} (h : (34 : UInt8) ∉ name) :
    valueOf (str "name") (str " name=" ++ 34 :: (name ++ [34])) = some name := by
  have hvalue : valueOf (str "name") (str " name=" ++ 34 :: (name ++ [34])) =
      some ((name ++ [34]).takeWhile (· ≠ 34)) := rfl
  rw [hvalue, Separated.takeWhile_append_cons h]

/-- **The name that is read of a part** is the one that is written. -/
theorem parameter_disposition {boundary : Str} {part : Part} (h : part.WellFormed boundary) :
    parameter (str "name") (disposition part) = part.writtenName := by
  cases part with
  | field name value =>
    have hline : disposition (.field name value) = str "Content-Disposition: form-data" ++
        59 :: (str " name=" ++ 34 :: (name ++ 34 :: [])) := by
      rw [disposition, List.append_assoc]
      rfl
    rw [parameter, hline, fields_quoted (by decide) (by decide) (by decide) h.1.1]
    exact congrArg (fun o => (o.or none)) (valueOf_name h.1.1)
  | file fieldName fileName bytes =>
    cases fileName with
    | none =>
      have hline : disposition (.file fieldName none bytes) = str "Content-Disposition: file" ++
          59 :: (str " name=" ++ 34 :: (fieldName ++ 34 :: [59])) := by
        rw [disposition, List.append_assoc]
        rfl
      rw [parameter, hline, fields_quoted (by decide) (by decide) (by decide) h.1.1]
      exact congrArg (fun o => (o.or none)) (valueOf_name h.1.1)
    | some name =>
      have hline : disposition (.file fieldName (some name) bytes) =
          str "Content-Disposition: file" ++
            59 :: (str " filename=" ++ 34 :: (name ++ 34 :: [])) := by
        rw [disposition, List.append_assoc]
        rfl
      rw [parameter, hline, fields_quoted (by decide) (by decide) (by decide) (h.2.1 name rfl).1]
      rfl

/-- The disposition is one line, and does not begin with a hyphen. -/
lemma disposition_line {boundary : Str} {part : Part} (h : part.WellFormed boundary) :
    (13 : UInt8) ∉ disposition part ∧ (disposition part).head? = some 67 := by
  have happend : ∀ {s t name : Str}, (13 : UInt8) ∉ s → (13 : UInt8) ∉ t → Part.IsName name →
      (13 : UInt8) ∉ s ++ name ++ t := by
    intro s t name hs ht hname
    simp only [List.mem_append, not_or]
    exact ⟨⟨hs, hname.2.1⟩, ht⟩
  cases part with
  | field name value => exact ⟨happend (by decide) (by decide) h.1, rfl⟩
  | file fieldName fileName bytes =>
    cases fileName with
    | none => exact ⟨happend (by decide) (by decide) h.1, rfl⟩
    | some name => exact ⟨happend (by decide) (by decide) (h.2.1 name rfl), rfl⟩

/-- A line that begins with another character than a hyphen. -/
lemma plain_of_head {boundary line : Str} {c : UInt8} (h : line.head? = some c) (hc : c ≠ 45) :
    Plain boundary line := by
  refine ⟨?_, not_delimits_of_head ?_⟩
  · rintro rfl
    cases h
  · rw [h]
    exact fun heq => hc (Option.some.inj heq)

/-- The lines of the header with the character set. -/
lemma otherHeaders_field (m : Multipart) (name value : Str) : ∃ line,
    otherHeaders m (.field name value) = line :: (lines 13 10 m.charsetName).tail ∧
      line.head? = some 67 := by
  obtain ⟨l, ls, hls⟩ :=
    List.exists_cons_of_ne_nil (lines_ne_nil (a := 13) (b := 10) m.charsetName)
  refine ⟨str "Content-Type: text/plain; charset=" ++ l, ?_, rfl⟩
  rw [otherHeaders, lines_append_of_not_mem (by decide), hls]
  rfl

/-- The other headers of a file. -/
lemma otherHeaders_file {m : Multipart} {fieldName bytes : Str} {fileName : Option Str} :
    ∀ line ∈ otherHeaders m (.file fieldName fileName bytes),
      (13 : UInt8) ∉ line ∧ line.head? = some 67 := by
  have hlines : ∀ line ∈ [str "Content-Type: application/octet-stream",
      str "Content-Transfer-Encoding: binary"], (13 : UInt8) ∉ line ∧ line.head? = some 67 := by
    decide
  exact hlines

/-- The headers of a file are plain. -/
lemma plain_headers_file {m : Multipart} {fieldName bytes : Str} {fileName : Option Str}
    (h : (Part.file fieldName fileName bytes).WellFormed m.boundary) :
    ∀ line ∈ headers m (.file fieldName fileName bytes), Plain m.boundary line := by
  intro line hline
  refine plain_of_head (c := 67) ?_ (by decide)
  rcases List.mem_cons.mp hline with rfl | hline
  · exact (disposition_line h).2
  · exact (otherHeaders_file line hline).2

/-- The headers of a form field are plain if the further lines of the character set are. -/
lemma plain_headers_field {m : Multipart} {name value : Str}
    (h : (Part.field name value).WellFormed m.boundary) {line : Str}
    (hline : line ∈ headers m (.field name value)) :
    Plain m.boundary line ∨ line ∈ (lines 13 10 m.charsetName).tail := by
  obtain ⟨l, hl, hhead⟩ := otherHeaders_field m name value
  rw [headers, hl] at hline
  rcases List.mem_cons.mp hline with rfl | hline
  · exact .inl (plain_of_head (disposition_line h).2 (by decide))
  · rcases List.mem_cons.mp hline with rfl | hline
    · exact .inl (plain_of_head hhead (by decide))
    · exact .inr hline

/-- The headers of a part that keeps the rules are plain. -/
lemma Part.Good.plain_headers {m : Multipart} {part : Part} (hgood : part.Good m)
    (h : part.WellFormed m.boundary) : ∀ line ∈ headers m part, Plain m.boundary line := by
  cases part with
  | field name value => exact fun line hline => (plain_headers_field h hline).elim id (hgood line)
  | file fieldName fileName bytes => exact plain_headers_file h

/-- The lines of the headers are lines. -/
lemma not_infix_of_mem_headers {m : Multipart} {part : Part} (h : part.WellFormed m.boundary) :
    ∀ line ∈ headers m part, ¬[13, 10] <:+: line := by
  intro line hline
  rcases List.mem_cons.mp hline with rfl | hline
  · exact not_infix_of_not_mem (disposition_line h).1
  · cases part with
    | field name value => exact not_infix_of_mem_lines hline
    | file fieldName fileName bytes =>
      exact not_infix_of_not_mem (otherHeaders_file line hline).1

/-! ## Lines and sections -/

/-- A closing delimiter line is the last line, or only the end of the body is behind it. -/
def Ends (boundary : Str) (ls : List Str) : Prop :=
  ∀ xs line ys, ls = xs ++ line :: ys → Closes boundary line → ys.length ≤ 1

/-- Without an epilogue. -/
lemma ends_of_epilogue {boundary s : Str} (h : epilogue boundary s = []) :
    Ends boundary (lines 13 10 s) := by
  intro xs line ys hls hcloses
  have hle := length_le_epilogue hcloses xs ys
  rw [epilogue, hls] at h
  by_cases hnil : Delimited.epilogue (Closes boundary) (xs ++ line :: ys) = []
  · rw [hnil, List.length_nil] at hle
    omega
  · have hlength := length_intercalate kLineFeed hnil
    have hfeed : kLineFeed.length = 2 := rfl
    rw [h, hfeed, List.length_nil] at hlength
    omega

/-- The last lines. -/
lemma Ends.of_append {boundary : Str} {xs ys : List Str} (h : Ends boundary (xs ++ ys)) :
    Ends boundary ys := by
  intro us line vs hys
  exact h (xs ++ us) line vs (by rw [hys, List.append_assoc])

/-- A line that does not close in front of others. -/
lemma Ends.cons {boundary line : Str} {ls : List Str} (h : Ends boundary ls)
    (hline : ¬Closes boundary line) : Ends boundary (line :: ls) := by
  intro xs line' ys hls hcloses
  cases xs with
  | nil =>
    obtain ⟨rfl, -⟩ := List.cons.inj hls
    exact absurd hcloses hline
  | cons x xs => exact h xs line' ys (List.cons.inj hls).2 hcloses

/-- No line closes before two others. -/
lemma Ends.not_closes {boundary : Str} {xs ys : List Str} (h : Ends boundary (xs ++ ys))
    (hys : 2 ≤ ys.length) : ∀ line ∈ xs, ¬Closes boundary line := by
  intro line hline hcloses
  obtain ⟨us, vs, rfl⟩ := List.append_of_mem hline
  have hle := h us line (vs ++ ys) (by simp) hcloses
  rw [List.length_append] at hle
  omega

/-- A section is read by its first line. -/
lemma fst_readPart {boundary : Str} {part : Part} (h : part.WellFormed boundary) (ls : List Str) :
    (readPart (disposition part :: ls)).1 = part.writtenName := by
  have hne : disposition part ≠ [] := fun hnil => by
    have hhead := (disposition_line h).2
    rw [hnil] at hhead
    cases hhead
  have hbegins : (str "Content-Disposition:").isPrefixOf (disposition part) = true := by
    cases part with
    | field name value => rfl
    | file fieldName fileName bytes => cases fileName <;> rfl
  have htake : (disposition part :: ls).takeWhile (· ≠ []) =
      disposition part :: ls.takeWhile (· ≠ []) := by simp [hne]
  rw [readPart, htake, List.find?_cons_of_pos hbegins]
  exact parameter_disposition h

/-- The content behind the headers. -/
lemma snd_readPart {hs : List Str} (h : [] ∉ hs) (ls : List Str) :
    (readPart (hs ++ [] :: ls)).2 = kLineFeed.intercalate ls := by
  rw [readPart, Separated.dropWhile_append_cons h, List.drop_one, List.tail_cons]

/-- What is read of a text that begins with a section. -/
lemma readParts_of_lines {boundary s : Str} {ls rest : List Str}
    (hlines : lines 13 10 s = dash boundary :: (ls ++ rest))
    (hls : ∀ line ∈ ls, ¬Delimits boundary line ∧ ¬Closes boundary line) :
    readParts boundary s = (sections (Delimits boundary) (Closes boundary) rest).map fun r =>
      readPart (ls ++ r.1) :: r.2.map readPart := by
  rw [readParts, hlines, sections_delimiter (not_closes_dash _) (delimits_dash _),
    sections_append hls, Option.map_map, Option.map_map]
  rfl

/-- The headers and the content of a part that keeps the rules do not delimit. -/
lemma not_delimits_good {m : Multipart} {part : Part} (h : part.WellFormed m.boundary)
    (hgood : part.Good m) {ls : List Str}
    (hls : ∀ line ∈ ls, ¬Delimits m.boundary line ∧ ¬Closes m.boundary line) :
    ∀ line ∈ headers m part ++ [] :: ls, ¬Delimits m.boundary line ∧ ¬Closes m.boundary line := by
  intro line hline
  rcases List.mem_append.mp hline with hline | hline
  · exact (hgood.plain_headers h line hline).2
  · rcases List.mem_cons.mp hline with rfl | hline
    · exact not_delimits_of_head (by decide)
    · exact hls line hline

/-- A part that keeps the rules is read as it is. -/
lemma readPart_good {m : Multipart} {part : Part} (h : part.WellFormed m.boundary)
    (hgood : part.Good m) (ls : List Str) :
    readPart (headers m part ++ [] :: ls) = (some part.name, kLineFeed.intercalate ls) := by
  have hname : part.writtenName = some part.name := by
    cases part with
    | field name value => rfl
    | file fieldName fileName bytes =>
      obtain ⟨rfl, -⟩ := hgood
      rfl
  have hne : [] ∉ headers m part := fun hin => (hgood.plain_headers h [] hin).1 rfl
  exact Prod.ext ((fst_readPart h _).trans hname) (snd_readPart hne ls)

/-- The headers of a file and all lines of its bytes but the last do not delimit. -/
lemma not_delimits_file {m : Multipart} {fieldName bytes : Str} {fileName : Option Str}
    (h : (Part.file fieldName fileName bytes).WellFormed m.boundary) {ls : List Str} {l : Str}
    (hls : lines 13 10 bytes = ls ++ [l]) :
    ∀ line ∈ headers m (.file fieldName fileName bytes) ++ [] :: ls,
      ¬Delimits m.boundary line ∧ ¬Closes m.boundary line := by
  intro line hline
  rcases List.mem_append.mp hline with hline | hline
  · exact (plain_headers_file h line hline).2
  · rcases List.mem_cons.mp hline with rfl | hline
    · exact not_delimits_of_head (by decide)
    · exact not_delimits_of_infix h.2.2 (infix_of_mem_lines (by rw [hls]; simp [hline]))

/-- The content that is read of a file, before the next line that delimits. -/
lemma snd_readPart_file {m : Multipart} {fieldName bytes : Str} {fileName : Option Str}
    (h : (Part.file fieldName fileName bytes).WellFormed m.boundary) (ls : List Str) :
    (readPart (headers m (.file fieldName fileName bytes) ++ [] :: ls)).2 =
      kLineFeed.intercalate ls :=
  snd_readPart (fun hin => (plain_headers_file h [] hin).1 rfl) ls

/-- The delimiter does not occur in the content. -/
lemma Part.WellFormed.not_infix_content {boundary : Str} {part : Part}
    (h : part.WellFormed boundary) : ¬dash boundary <:+: part.content := by
  cases part with
  | field name value => exact h.2
  | file fieldName fileName bytes => exact h.2.2

/-- The delimiter does not occur in the contents of sections that are read as parts. -/
lemma not_infix_content {boundary : Str} {parts : List Part} {secs : List (List Str)}
    (h : ∀ part ∈ parts, part.WellFormed boundary)
    (hread : secs.map readPart = parts.map fun part => (some part.name, part.content)) :
    ∀ ls ∈ secs, ¬dash boundary <:+: (readPart ls).2 := by
  intro ls hls
  have hmem := List.mem_map_of_mem (f := readPart) hls
  rw [hread] at hmem
  obtain ⟨part, hpart, heq⟩ := List.mem_map.mp hmem
  rw [← heq]
  exact (h part hpart).not_infix_content

/-- The delimiter behind the bytes of a file continues their last line, and **delimits all the
same**, if no content that is read has the delimiter in it: the content of the file would. -/
lemma delimits_behind_file {m : Multipart} {fieldName bytes : Str} {fileName : Option Str}
    (hpart : (Part.file fieldName fileName bytes).WellFormed m.boundary) {ls : List Str} {l : Str}
    (hls : lines 13 10 bytes = ls ++ [l]) (hnot : ¬Closes m.boundary (l ++ dash m.boundary))
    {rest : List Str} {r : List Str × List (List Str)}
    (hr : sections (Delimits m.boundary) (Closes m.boundary) (dash m.boundary ::
      (headers m (.file fieldName fileName bytes) ++ [] :: ls ++ [l ++ dash m.boundary] ++
        rest)) = some r)
    (hcontents : ∀ ls ∈ r.2, ¬dash m.boundary <:+: (readPart ls).2) :
    Delimits m.boundary (l ++ dash m.boundary) := by
  by_contra hnone
  have hall : ∀ line ∈ headers m (.file fieldName fileName bytes) ++ [] :: ls ++
      [l ++ dash m.boundary], ¬Delimits m.boundary line ∧ ¬Closes m.boundary line :=
    List.forall_mem_append.mpr ⟨not_delimits_file hpart hls,
      List.forall_mem_singleton.mpr ⟨hnone, hnot⟩⟩
  rw [sections_delimiter (not_closes_dash _) (delimits_dash _), sections_append hall,
    Option.map_map] at hr
  obtain ⟨r, -, rfl⟩ := Option.map_eq_some_iff.mp hr
  refine hcontents _ List.mem_cons_self ?_
  have hlist : headers m (.file fieldName fileName bytes) ++ [] :: ls ++
      [l ++ dash m.boundary] ++ r.1 = headers m (.file fieldName fileName bytes) ++
        [] :: (ls ++ (l ++ dash m.boundary) :: r.1) := by simp
  dsimp only
  rw [hlist, snd_readPart_file hpart]
  exact (List.suffix_append l _).isInfix.trans (infix_intercalate (by simp))

section Written

variable {m : Multipart} (hboundary : ¬kLineFeed <:+: m.boundary)

include hboundary

/-- The lines of a text that begins with a part. -/
lemma lines_part {part : Part} (h : part.WellFormed m.boundary) (t : Str) :
    lines 13 10 (part.calls.flatMap m.appended ++ t) =
      dash m.boundary :: (headers m part ++ [] :: lines 13 10 (written part ++ t)) := by
  have hline : ∀ line ∈ dash m.boundary :: headers m part ++ [[]], ¬[13, 10] <:+: line := by
    intro line hin
    rcases List.mem_append.mp hin with hin | hin
    · rcases List.mem_cons.mp hin with rfl | hin
      · exact not_infix_dash hboundary
      · exact not_infix_of_mem_headers h line hin
    · obtain rfl := List.mem_singleton.mp hin
      simp
  rw [flatMap_appended, List.append_assoc]
  exact (lines_flatMap_append (by decide) hline _).trans (by simp)

/-- The closing delimiter line. -/
lemma lines_text_nil : lines 13 10 (text m []) = [dash m.boundary ++ str "--", []] := by
  rw [text, List.flatMap_nil, List.nil_append, List.append_assoc,
    lines_dash_append hboundary (by simp [kLineFeed_ne_nil]) (by decide)]
  rfl

/-- The rest of a text begins with a line that delimits, and goes on behind it. -/
lemma exists_lines_text {parts : List Part} (h : ∀ part ∈ parts, part.WellFormed m.boundary) :
    ∃ line rest, lines 13 10 (text m parts) = line :: rest ∧ rest ≠ [] ∧
      (Delimits m.boundary line ∨ Closes m.boundary line) := by
  cases parts with
  | nil => exact ⟨_, _, lines_text_nil hboundary, by simp, .inr (closes_dash _)⟩
  | cons part parts =>
    have hlines := lines_part hboundary (h part List.mem_cons_self) (text m parts)
    rw [← text_cons] at hlines
    exact ⟨dash m.boundary, _, hlines, by simp [headers], .inl (delimits_dash _)⟩

/-- The lines of a text that begins with a form field. -/
lemma lines_field {name value : Str} (parts : List Part)
    (h : (Part.field name value).WellFormed m.boundary) :
    lines 13 10 (text m (.field name value :: parts)) =
      dash m.boundary :: (headers m (.field name value) ++ [] :: lines 13 10 value) ++
        lines 13 10 (text m parts) := by
  have hvalue : lines 13 10 (written (.field name value) ++ text m parts) =
      lines 13 10 value ++ lines 13 10 (text m parts) := by
    rw [← lines_append_end (by decide), written, List.append_assoc]
    rfl
  rw [text_cons, lines_part hboundary h, hvalue]
  simp

/-- **The lines of a part that keeps the rules**, before those of the parts behind it. -/
theorem lines_good {part : Part} (parts : List Part) (h : part.WellFormed m.boundary)
    (hgood : part.Good m) : ∃ ls, lines 13 10 (text m (part :: parts)) =
      dash m.boundary :: (headers m part ++ [] :: ls) ++ lines 13 10 (text m parts) ∧
      (∀ line ∈ ls, ¬Delimits m.boundary line ∧ ¬Closes m.boundary line) ∧
      kLineFeed.intercalate ls = part.content := by
  cases part with
  | field name value =>
    exact ⟨lines 13 10 value, lines_field hboundary parts h,
      fun line hline => not_delimits_of_infix h.2 (infix_of_mem_lines hline),
      intercalate_lines value⟩
  | file fieldName fileName bytes =>
    obtain ⟨-, rfl⟩ := hgood
    refine ⟨[], ?_, List.forall_mem_nil _, rfl⟩
    rw [text_cons, lines_part hboundary h]
    simp [written]

/-- **A part that keeps the rules** is read as it is, and the parts behind it are read. -/
theorem readParts_good {part : Part} {parts : List Part}
    (h : ∀ part' ∈ part :: parts, part'.WellFormed m.boundary) (hgood : part.Good m) :
    readParts m.boundary (text m (part :: parts)) =
      (readParts m.boundary (text m parts)).map ((some part.name, part.content) :: ·) := by
  obtain ⟨hpart, hparts⟩ := List.forall_mem_cons.mp h
  obtain ⟨line, rest, hline, -, hdelimits⟩ := exists_lines_text hboundary hparts
  obtain ⟨ls, hlines, hls, hcontent⟩ := lines_good hboundary parts hpart hgood
  rw [readParts_of_lines hlines (not_delimits_good hpart hgood hls), readParts, hline,
    Option.map_map]
  cases hrest : sections (Delimits m.boundary) (Closes m.boundary) (line :: rest) with
  | none => rfl
  | some r =>
    rw [Option.map_some, Option.map_some, eq_nil_of_sections_cons hdelimits hrest, List.append_nil,
      readPart_good hpart hgood, hcontent]
    rfl

/-- Parts that keep the rules have the closing delimiter at the end. -/
lemma epilogue_good {parts : List Part}
    (h : ∀ part ∈ parts, part.WellFormed m.boundary ∧ part.Good m) :
    epilogue m.boundary (text m parts) = [] := by
  rw [epilogue]
  induction parts with
  | nil =>
    rw [lines_text_nil hboundary, epilogue_closing (closes_dash _)]
    rfl
  | cons part parts ih =>
    obtain ⟨⟨hpart, hgood⟩, hparts⟩ := List.forall_mem_cons.mp h
    obtain ⟨ls, hlines, hls, -⟩ := lines_good hboundary parts hpart hgood
    rw [hlines, epilogue_append, ih hparts]
    intro line hline
    rcases List.mem_cons.mp hline with rfl | hline
    · exact not_closes_dash _
    · exact (not_delimits_good hpart hgood hls line hline).2

/-- The lines of a text that begins with a file: the delimiter behind the bytes goes on where their
last line ends. -/
lemma lines_file {fieldName bytes : Str} {fileName : Option Str} {parts : List Part}
    (h : (Part.file fieldName fileName bytes).WellFormed m.boundary) {line : Str} {rest : List Str}
    (hline : lines 13 10 (text m parts) = line :: rest) :
    ∃ ls l, lines 13 10 bytes = ls ++ [l] ∧
      lines 13 10 (text m (.file fieldName fileName bytes :: parts)) =
        dash m.boundary :: (headers m (.file fieldName fileName bytes) ++ [] :: ls ++
          (l ++ line) :: rest) := by
  obtain ⟨ls, l, hls, happend⟩ := exists_lines_append (a := 13) (b := 10) bytes
  have hhead := head?_text m parts
  have hlines := happend (text m parts) (by rintro heq; rw [heq] at hhead; cases hhead)
    (by rw [hhead]; decide)
  rw [hline, List.modifyHead_cons] at hlines
  refine ⟨ls, l, hls, ?_⟩
  rw [text_cons, lines_part hboundary h, written, hlines]
  simp

/-- The name that is read first is the one that is written first. -/
lemma fst_of_readParts {part : Part} {parts : List Part} (h : part.WellFormed m.boundary)
    {p : Option Str × Str} {others : List (Option Str × Str)}
    (hread : readParts m.boundary (text m (part :: parts)) = some (p :: others)) :
    p.1 = part.writtenName := by
  have hlines : lines 13 10 (text m (part :: parts)) = dash m.boundary :: ([disposition part] ++
      (otherHeaders m part ++ [] :: lines 13 10 (written part ++ text m parts))) := by
    rw [text_cons]
    exact lines_part hboundary h (text m parts)
  have hplain : Plain m.boundary _ := plain_of_head (disposition_line h).2 (by decide)
  rw [readParts_of_lines hlines (List.forall_mem_singleton.mpr hplain.2),
    Option.map_eq_some_iff] at hread
  obtain ⟨r, -, heq⟩ := hread
  rw [← (List.cons.inj heq).1]
  exact fst_readPart h r.1

/-- **A file with bytes** is not read as it is: nothing ends the last line of its bytes before the
next delimiter.

**Proof sketch.** The delimiter continues the last line of the bytes. If that line delimits all the
same, what is read of the bytes ends before it, with fewer bytes; otherwise the line and at least
the delimiter belong to what is read, with more bytes. -/
theorem readParts_bad {fieldName bytes : Str} {fileName : Option Str} {parts : List Part}
    (hpart : (Part.file fieldName fileName bytes).WellFormed m.boundary)
    (hparts : ∀ part ∈ parts, part.WellFormed m.boundary) (hbytes : bytes ≠ []) (name : Option Str)
    (others : List (Option Str × Str)) :
    readParts m.boundary (text m (.file fieldName fileName bytes :: parts)) ≠
      some ((name, bytes) :: others) := by
  obtain ⟨line, rest, hline, -, hdelimits⟩ := exists_lines_text hboundary hparts
  obtain ⟨ls, l, hls, hlines⟩ := lines_file hboundary hpart hline
  intro hread
  rw [readParts_of_lines hlines (not_delimits_file hpart hls), Option.map_eq_some_iff] at hread
  obtain ⟨r, hr, heq⟩ := hread
  have hsame : kLineFeed.intercalate (ls ++ r.1) = bytes := by
    have hcontent := congrArg Prod.snd (List.cons.inj heq).1
    rwa [List.append_assoc, List.cons_append, snd_readPart_file hpart] at hcontent
  have hjoined : kLineFeed.intercalate (ls ++ [l]) = bytes := by
    rw [← hls]
    exact intercalate_lines bytes
  have hfeed : kLineFeed.length = 2 := rfl
  have hlength := length_intercalate kLineFeed (List.append_ne_nil_of_right_ne_nil ls
    (List.cons_ne_nil l []))
  rw [hjoined, List.flatten_append, List.flatten_singleton, List.length_append,
    List.length_append, List.length_singleton, hfeed] at hlength
  rcases sections_cons_cases hr with hnil | ⟨more, hmore⟩
  · -- What is read ends before the last line of the bytes.
    rw [hnil, List.append_nil] at hsame
    by_cases hempty : ls = []
    · rw [hempty] at hsame
      exact hbytes hsame.symm
    · have hlength' := length_intercalate kLineFeed hempty
      rw [hsame, hfeed] at hlength'
      omega
  · -- What is read goes on behind the last line of the bytes.
    have hlong : 2 ≤ line.length := by
      have hbegins := (dash_isPrefix hdelimits).length_le
      rw [dash, List.length_append] at hbegins
      exact le_trans (Nat.le_add_right _ _) hbegins
    have hlength' := length_intercalate kLineFeed (List.append_ne_nil_of_right_ne_nil ls
      (List.cons_ne_nil (l ++ line) more))
    rw [← hmore, hsame, hmore, List.flatten_append, List.flatten_cons, List.length_append,
      List.length_append, List.length_append, List.length_append, List.length_cons,
      hfeed] at hlength'
    omega

/-- **What is in front of the parts behind the first one**, if no content that is read has the
delimiter in it: the delimiter of the first part, and lines that do not close. -/
lemma exists_lines_front {part : Part} {parts : List Part}
    (h : ∀ part' ∈ part :: parts, part'.WellFormed m.boundary) (hne : parts ≠ [])
    {r : List Str × List (List Str)}
    (hr : sections (Delimits m.boundary) (Closes m.boundary)
      (lines 13 10 (text m (part :: parts))) = some r)
    (hends : Ends m.boundary (lines 13 10 (text m (part :: parts))))
    (hcontents : ∀ ls ∈ r.2, ¬dash m.boundary <:+: (readPart ls).2) :
    ∃ xs ys, lines 13 10 (text m (part :: parts)) = dash m.boundary :: xs ++ ys ∧
      (∀ line ∈ xs, ¬Closes m.boundary line) ∧
      sections (Delimits m.boundary) (Closes m.boundary) ys =
        sections (Delimits m.boundary) (Closes m.boundary) (lines 13 10 (text m parts)) ∧
      Ends m.boundary (lines 13 10 (text m parts)) := by
  obtain ⟨hpart, hparts⟩ := List.forall_mem_cons.mp h
  obtain ⟨line, rest, hline, hrest, -⟩ := exists_lines_text hboundary hparts
  have htwo : 2 ≤ (lines 13 10 (text m parts)).length := by
    rw [hline, List.length_cons]
    have := List.length_pos_of_ne_nil hrest
    omega
  cases part with
  | field name value =>
    have hlines := lines_field hboundary parts hpart
    rw [hlines] at hends
    have hcloses := hends.not_closes htwo
    exact ⟨_, _, hlines, fun l hl => hcloses l (List.mem_cons_of_mem _ hl), rfl, hends.of_append⟩
  | file fieldName fileName bytes =>
    obtain ⟨ls, l, hls, hlines⟩ := lines_file hboundary hpart hline
    obtain ⟨part', parts, rfl⟩ := List.exists_cons_of_ne_nil hne
    have hfirst := lines_part hboundary (hparts part' List.mem_cons_self) (text m parts)
    rw [← text_cons, hline] at hfirst
    obtain ⟨rfl, hrest⟩ := List.cons.inj hfirst
    have hlong : 2 ≤ rest.length := by
      rw [hrest, headers, List.length_append, List.length_cons, List.length_cons]
      omega
    have hplain := not_delimits_file hpart hls
    have hsplit : lines 13 10 (text m (.file fieldName fileName bytes :: part' :: parts)) =
        (dash m.boundary :: (headers m (.file fieldName fileName bytes) ++ [] :: ls) ++
          [l ++ dash m.boundary]) ++ rest := by
      rw [hlines]
      simp
    rw [hsplit] at hends
    have hnot := hends.not_closes hlong
    rw [hsplit, List.cons_append, List.cons_append] at hr
    have hdelimits := delimits_behind_file hpart hls (hnot _ (by simp)) hr hcontents
    refine ⟨_, _, hlines, fun line hin => (hplain line hin).2, ?_, ?_⟩
    · rw [hline, sections_delimiter (hnot _ (by simp)) hdelimits,
        sections_delimiter (not_closes_dash _) (delimits_dash _)]
    · rw [hline]
      exact hends.of_append.cons (not_closes_dash _)

/-- **A body has at least as many sections as parts**, if no content that is read has the delimiter
in it and nothing is behind the closing delimiter.

**Proof sketch.** By induction on the parts. The delimiter of a part delimits where it is a line,
and where it continues the last line of a file's bytes: that line would be part of a content, or
close, otherwise (`exists_lines_front`). -/
theorem length_le_sections {parts : List Part}
    (h : ∀ part ∈ parts, part.WellFormed m.boundary) {r : List Str × List (List Str)}
    (hr : sections (Delimits m.boundary) (Closes m.boundary) (lines 13 10 (text m parts)) = some r)
    (hends : Ends m.boundary (lines 13 10 (text m parts)))
    (hcontents : ∀ ls ∈ r.2, ¬dash m.boundary <:+: (readPart ls).2) :
    parts.length ≤ r.2.length := by
  induction parts generalizing r with
  | nil => exact Nat.zero_le _
  | cons part parts ih =>
    obtain ⟨hpart, hparts⟩ := List.forall_mem_cons.mp h
    by_cases hne : parts = []
    · subst hne
      have hlines := lines_part hboundary hpart (text m [])
      rw [← text_cons] at hlines
      rw [hlines, sections_delimiter (not_closes_dash _) (delimits_dash _)] at hr
      obtain ⟨r, -, rfl⟩ := Option.map_eq_some_iff.mp hr
      exact Nat.succ_le_succ (Nat.zero_le _)
    · obtain ⟨xs, ys, hlines, hcloses, hsame, hends'⟩ :=
        exists_lines_front hboundary h hne hr hends hcontents
      rw [hlines] at hr
      obtain ⟨r', hr', hsuffix, hlength⟩ := exists_sections_append
        (List.forall_mem_cons.mpr ⟨not_closes_dash _, hcloses⟩) hr
      rw [hsame] at hr'
      have hrest := ih hparts hr' hends' fun ls hls => hcontents ls (hsuffix.subset hls)
      rw [List.countP_cons, if_pos (decide_eq_true (delimits_dash _))] at hlength
      rw [List.length_cons]
      omega

/-- A form field is read back only if it keeps the rules.

**Proof sketch.** A line of the character set that delimits makes a section too many
(`length_le_sections`); an empty one ends the headers, so that the line end behind the headers
becomes part of the content. -/
theorem good_of_field {name value : Str} {parts : List Part}
    (h : ∀ part ∈ .field name value :: parts, part.WellFormed m.boundary)
    (hread : readParts m.boundary (text m (.field name value :: parts)) =
      some ((.field name value :: parts).map fun part => (some part.name, part.content)))
    (hends : Ends m.boundary (lines 13 10 (text m (.field name value :: parts)))) :
    (Part.field name value).Good m := by
  obtain ⟨hpart, hparts⟩ := List.forall_mem_cons.mp h
  obtain ⟨line, rest, hline, hrest, hfirst⟩ := exists_lines_text hboundary hparts
  have hlines := lines_field hboundary parts hpart
  obtain ⟨r, hr, hmap⟩ := Option.map_eq_some_iff.mp hread
  have hcontents := not_infix_content h hmap
  rw [hlines] at hends hr
  have hcloses := hends.not_closes (by
    rw [hline, List.length_cons]
    exact Nat.succ_le_succ (List.length_pos_of_ne_nil hrest))
  obtain ⟨r', hr', hsuffix, hcount⟩ := exists_sections_append hcloses hr
  have hnone : ∀ l ∈ headers m (.field name value) ++ [] :: lines 13 10 value,
      ¬Delimits m.boundary l := by
    have hle := length_le_sections hboundary hparts hr' hends.of_append
      fun ls hls => hcontents ls (hsuffix.subset hls)
    have hlength := congrArg List.length hmap
    rw [List.length_map, List.length_map, List.length_cons] at hlength
    rw [List.countP_cons, if_pos (decide_eq_true (delimits_dash _))] at hcount
    have hzero : (headers m (.field name value) ++ [] :: lines 13 10 value).countP
        (fun l => Delimits m.boundary l) = 0 := by omega
    intro l hl hdelimits
    exact List.countP_eq_zero.mp hzero l hl (decide_eq_true hdelimits)
  have hheaders : ∀ l ∈ (lines 13 10 m.charsetName).tail, l ∈ headers m (.field name value) := by
    obtain ⟨l, hl, -⟩ := otherHeaders_field m name value
    rw [headers, hl]
    exact fun l' hl' => List.mem_cons_of_mem _ (List.mem_cons_of_mem _ hl')
  intro l hl
  have hmem := List.mem_append_left ([] :: lines 13 10 value) (hheaders l hl)
  refine ⟨?_, hnone l hmem, hcloses l (List.mem_cons_of_mem _ hmem)⟩
  rintro rfl
  -- The empty line ends the headers.
  obtain ⟨before, behind, hsplit, hbefore⟩ := List.eq_append_cons_of_mem (hheaders [] hl)
  rw [List.cons_append, sections_delimiter (not_closes_dash _) (delimits_dash _),
    sections_append fun l hl => ⟨hnone l hl, hcloses l (List.mem_cons_of_mem _ hl)⟩, hr',
    Option.map_some, Option.map_some, Option.some_inj] at hr
  rw [hline] at hr'
  rw [← hr, eq_nil_of_sections_cons hfirst hr', List.append_nil] at hmap
  have hcontent := congrArg Prod.snd (List.cons.inj hmap).1
  rw [hsplit, List.append_assoc, List.cons_append, snd_readPart hbefore] at hcontent
  have hfeed : kLineFeed.length = 2 := rfl
  have hlong := length_intercalate kLineFeed (List.append_ne_nil_of_right_ne_nil behind
    (List.cons_ne_nil [] (lines 13 10 value)))
  have hshort := length_intercalate kLineFeed (lines_ne_nil (a := 13) (b := 10) value)
  rw [show kLineFeed.intercalate (lines 13 10 value) = value from intercalate_lines value,
    hfeed] at hshort
  rw [hcontent, List.flatten_append, List.flatten_cons, List.length_append, List.length_append,
    List.length_append, List.length_cons, hfeed, List.length_nil] at hlong
  simp only [Part.content] at hlong
  omega

/-- **A part that is read back keeps the rules.**

**Proof sketch.** By induction on the parts, which are read one by one. -/
theorem good_of_readParts {parts : List Part} (h : ∀ part ∈ parts, part.WellFormed m.boundary)
    (hread : readParts m.boundary (text m parts) =
      some (parts.map fun part => (some part.name, part.content)))
    (hends : Ends m.boundary (lines 13 10 (text m parts))) : ∀ part ∈ parts, part.Good m := by
  induction parts with
  | nil => exact List.forall_mem_nil _
  | cons part parts ih =>
    obtain ⟨hpart, hparts⟩ := List.forall_mem_cons.mp h
    have hgood : part.Good m := by
      cases part with
      | field name value => exact good_of_field hboundary h hread hends
      | file fieldName fileName bytes =>
        refine ⟨?_, ?_⟩
        · have hname := fst_of_readParts hboundary hpart hread
          cases fileName with
          | none => rfl
          | some name => cases hname
        · by_contra hbytes
          exact readParts_bad hboundary hpart hparts hbytes _ _ hread
    obtain ⟨ls, hlines, -, -⟩ := lines_good hboundary parts hpart hgood
    rw [hlines] at hends
    rw [readParts_good hboundary h hgood, List.map_cons] at hread
    obtain ⟨others, hothers, heq⟩ := Option.map_eq_some_iff.mp hread
    rw [(List.cons.inj heq).2] at hothers
    exact List.forall_mem_cons.mpr ⟨hgood, ih hparts hothers hends.of_append⟩

end Written

/-- **When the parts are read back**: the boundary fits on a line, and every part keeps the rules.

**Proof sketch.** A boundary that does not fit on a line leaves the body without a closing delimiter
line. Otherwise parts that keep the rules are read one by one (`readParts_good`), and parts that
are read back keep them (`good_of_readParts`). -/
theorem readsBack_iff {m : Multipart} (hbody : m.body = []) {parts : List Part}
    (h : ∀ part ∈ parts, part.WellFormed m.boundary) :
    m.ReadsBack parts ↔ ¬kLineFeed <:+: m.boundary ∧ ∀ part ∈ parts, part.Good m := by
  rw [ReadsBack, finish_run hbody]
  by_cases hboundary : kLineFeed <:+: m.boundary
  · have hnone : readParts m.boundary (text m parts) = none := by
      rw [readParts, sections_eq_none, Option.map_none]
      intro line hline hcloses
      refine not_infix_of_mem_lines hline (hboundary.trans ?_)
      exact (List.suffix_append (str "--") m.boundary).isInfix.trans
        (dash_isPrefix (.inr hcloses)).isInfix
    simp [hnone, hboundary]
  · rw [and_iff_right hboundary]
    constructor
    · rintro ⟨hread, hepilogue⟩
      exact good_of_readParts hboundary h hread (ends_of_epilogue hepilogue)
    · intro hgood
      refine ⟨?_, epilogue_good hboundary fun part hpart => ⟨h part hpart, hgood part hpart⟩⟩
      induction parts with
      | nil =>
        rw [readParts, lines_text_nil hboundary, sections_closing (closes_dash _)]
        rfl
      | cons part parts ih =>
        rw [readParts_good hboundary h (hgood part List.mem_cons_self),
          ih (List.forall_mem_cons.mp h).2 (List.forall_mem_cons.mp hgood).2]
        rfl

/-- A form field in a character set with two lines, and an empty file. -/
theorem readsBack_iff_empty_file :
    ({ boundary := str "b", charset := some (str "x\r\ny") } : Multipart).ReadsBack
      [.field (str "n") (str "v"), .file (str "f") none []] := by
  have hname : Part.IsName (str "n") ∧ Part.IsName (str "f") :=
    ⟨⟨by decide, by decide, by decide⟩, by decide, by decide, by decide⟩
  have hwell : ∀ part ∈ [Part.field (str "n") (str "v"), .file (str "f") none []],
      part.WellFormed (str "b") := by
    refine List.forall_mem_cons.mpr ⟨⟨hname.1, by decide⟩, List.forall_mem_singleton.mpr ?_⟩
    exact ⟨hname.2, fun _ hfile => (nomatch hfile), by decide⟩
  have hplain : ∀ line ∈ (lines 13 10 (str "x\r\ny")).tail, Plain (str "b") line := by decide
  exact (readsBack_iff rfl hwell).mpr ⟨by decide,
    List.forall_mem_cons.mpr ⟨hplain, List.forall_mem_singleton.mpr ⟨rfl, rfl⟩⟩⟩

/-- A file with one byte. -/
theorem readsBack_one_byte :
    ¬ ∀ (m : Multipart) (parts : List Part), m.body = [] →
      (∀ part ∈ parts, part.WellFormed m.boundary) → m.ReadsBack parts := by
  intro hall
  obtain ⟨hread, -⟩ := hall { boundary := str "b" } [.file (str "f") none (str "x")] rfl
    (List.forall_mem_singleton.mpr ⟨⟨by decide, by decide, by decide⟩, by simp, by decide⟩)
  revert hread
  decide +kernel

end RaCommon.Multipart
