import RaCommon.Content.Body
import RaCommon.Library.Separated

set_option relaxedAutoImplicit false
set_option autoImplicit false

/-!
# Magnet links (`content.hpp`)

What a magnet link says about its content: the parameters between the `&` characters, and the
keywords between the `+` characters of the last one.

## Main definitions

* `RaCommon.linkParameters` — the parameters of a link, by splitting.
* `RaCommon.readLength`, `RaCommon.readHash` — the values of `xl` and of `xt`.
* `RaCommon.Content.GivesBack` — splitting a link gives back the length, the hash and the keywords
  of some content.

## Main results

* `RaCommon.Content.givesBack_iff` — of which content the link gives back everything.
-/

namespace RaCommon

/-! ## Reading a link -/

/-- The name and the value of a parameter: what is before and after its first `=`. -/
def parameter (text : Str) : Str × Str :=
  (text.takeWhile (· ≠ 61), (text.dropWhile (· ≠ 61)).drop 1)

/-- The parameters of a link: the text after `magnet:?` split on `&`. -/
def linkParameters (link : Str) : List (Str × Str) :=
  ((link.drop (str "magnet:?").length).splitOn 38).map parameter

/-- The length in the value of `xl`. -/
def readLength (value : Str) : Option ℤ :=
  (strtol value).bind fun r => if r.2 = value.length then some r.1 else none

/-- The algorithm whose name, in lower case, is `name`. -/
def algorithmNamed (name : Str) : Option HashAlgorithm :=
  [.sha1, .sha256, .sha512, .pbkdf2HmacSha1].find? fun a : HashAlgorithm =>
    a.jcaName.map Content.toLower = name

/-- The hash in the value of `xt`: after `urn:` the name of the algorithm, a colon and the value. -/
def readHash (value : Str) : Option Hash :=
  if (str "urn:").isPrefixOf value then
    let rest := value.drop 4
    (algorithmNamed (rest.takeWhile (· ≠ 58))).map fun algorithm =>
      ⟨(rest.dropWhile (· ≠ 58)).drop 1, algorithm⟩
  else none

/-- A parameter whose name has no `=`. -/
lemma parameter_append {name : Str} (h : 61 ∉ name) (value : Str) :
    parameter (name ++ 61 :: value) = (name, value) := by
  rw [parameter, Separated.takeWhile_append_cons h, Separated.dropWhile_append_cons h,
    List.drop_one, List.tail_cons]

/-- The length that was written is read. -/
lemma readLength_toText (x : ℤ) : readLength (toText x) = some x := by
  rw [readLength, strtol_of_decimal (decimal_toText x), Option.bind_some, if_pos rfl]

/-- The hash that was written is read. -/
lemma readHash_hashPart (h : Hash) :
    readHash (str "urn:" ++ h.algorithm.jcaName.map Content.toLower ++ str ":" ++ h.hashValue) =
      some h := by
  obtain ⟨hashValue, algorithm⟩ := h
  cases algorithm <;> rfl

namespace Content

/-- Splitting the link gives back the length of the body, the hash and the keywords: there is a
parameter `xl` if there is a body, `xt` if there is a hash and `kt` if there are keywords, in this
order and no others; and their values are the length of the body, the hash and, split on `+`, the
keywords. -/
def GivesBack (c : Content) (link : Str) : Prop :=
  ∃ xl xt kt : Option Str,
    linkParameters link = (xl.map fun v => (str "xl", v)).toList ++
      (xt.map fun v => (str "xt", v)).toList ++ (kt.map fun v => (str "kt", v)).toList ∧
    (xl.map readLength = c.body.map fun body => some (body.length : ℤ)) ∧
    (xt.map readHash = c.hash.map some) ∧
    ((kt.map fun v => v.splitOn 43).getD [] = c.keywords)

/-! ## The parts of a link -/

/-- The parts that `MagnetLink` joins. -/
def linkParts (c : Content) : List Str :=
  (c.body.map fun body => str "xl=" ++ toText body.length).toList ++
    (c.hash.map hashPart).toList ++
      if c.keywords = [] then [] else [str "kt=" ++ (str "+").intercalate c.keywords]

/-- A link is its parts, of which there is at least one. -/
lemma linkParts_of_magnetLink {c : Content} {link : Str} (h : c.magnetLink = some link) :
    c.linkParts ≠ [] ∧ link.drop (str "magnet:?").length = [38].intercalate c.linkParts := by
  have hlink : c.magnetLink = if c.linkParts = [] then none
      else some (str "magnet:?" ++ (str "&").intercalate c.linkParts) := rfl
  rw [hlink] at h
  split at h
  · cases h
  · next hne =>
    obtain rfl := Option.some.inj h
    exact ⟨hne, List.drop_left⟩

/-- The number of parts. -/
lemma length_linkParts (c : Content) : c.linkParts.length =
    c.body.toList.length + c.hash.toList.length + if c.keywords = [] then 0 else 1 := by
  have hmap : ∀ {α : Type} (o : Option α) (f : α → Str),
      (o.map f).toList.length = o.toList.length := by
    intro α o f
    cases o <;> rfl
  rw [linkParts, List.length_append, List.length_append, hmap, hmap]
  split_ifs <;> rfl

/-- A decimal number has no `&`. -/
lemma not_mem_toText (x : ℤ) : (38 : UInt8) ∉ toText x :=
  (decimal_toText x).not_mem rfl (by decide) (by decide)

/-- Where an `&` can be: in the hash value or in a keyword. -/
lemma linkParts_free_iff (c : Content) : (∀ part ∈ c.linkParts, (38 : UInt8) ∉ part) ↔
    (∀ h, c.hash = some h → (38 : UInt8) ∉ h.hashValue) ∧
      ∀ keyword ∈ c.keywords, (38 : UInt8) ∉ keyword := by
  have hlength : ∀ body : Bytes, (38 : UInt8) ∉ str "xl=" ++ toText body.length := by
    intro body
    rw [List.mem_append, not_or]
    exact ⟨by decide, not_mem_toText _⟩
  have hhash : ∀ h : Hash, (38 : UInt8) ∉ hashPart h ↔ (38 : UInt8) ∉ h.hashValue := by
    intro h
    have hname : (38 : UInt8) ∉ h.algorithm.jcaName.map toLower := by
      cases h.algorithm <;> decide
    simp [hashPart, hname, show (38 : UInt8) ∉ str "xt=urn:" by decide,
      show (38 : UInt8) ∉ str ":" by decide]
  have hkeywords : (38 : UInt8) ∉ str "kt=" ++ (str "+").intercalate c.keywords ↔
      ∀ keyword ∈ c.keywords, (38 : UInt8) ∉ keyword := by
    have hplus : str "+" = [43] := rfl
    rw [List.mem_append, not_or, hplus, Separated.mem_intercalate (by decide)]
    simp [show (38 : UInt8) ∉ str "kt=" by decide]
  rw [linkParts]
  simp only [List.forall_mem_append]
  refine and_congr ?_ ?_
  · cases c.body with
    | none => cases c.hash <;> simp [hhash]
    | some body => cases c.hash <;> simp [hhash, hlength]
  · split_ifs with hempty
    · simp [hempty]
    · simpa using hkeywords

/-- What splitting gives where there is no further `&`. -/
lemma parameters_of_free {c : Content} {link : Str} (h : c.magnetLink = some link)
    (hfree : ∀ part ∈ c.linkParts, (38 : UInt8) ∉ part) :
    linkParameters link = c.linkParts.map parameter := by
  obtain ⟨hne, hlink⟩ := linkParts_of_magnetLink h
  rw [linkParameters, hlink, List.splitOn_intercalate 38 hfree hne]

/-- The parameters that the parts are. -/
lemma map_parameter_linkParts (c : Content) : c.linkParts.map parameter =
    (c.body.map fun body => (str "xl", toText body.length)).toList ++
      (c.hash.map fun h => (str "xt",
        str "urn:" ++ h.algorithm.jcaName.map toLower ++ str ":" ++ h.hashValue)).toList ++
      if c.keywords = [] then [] else [(str "kt", [43].intercalate c.keywords)] := by
  have hxl : ∀ v, parameter (str "xl=" ++ v) = (str "xl", v) :=
    parameter_append (show 61 ∉ str "xl" by decide)
  have hxt : ∀ v, parameter (str "xt=" ++ v) = (str "xt", v) :=
    parameter_append (show 61 ∉ str "xt" by decide)
  have hkt : ∀ v, parameter (str "kt=" ++ v) = (str "kt", v) :=
    parameter_append (show 61 ∉ str "kt" by decide)
  have hplus : str "+" = [43] := rfl
  have hurn : str "xt=urn:" = str "xt=" ++ str "urn:" := rfl
  rw [linkParts, List.map_append, List.map_append]
  congr 1
  · congr 1
    · cases c.body <;> simp [hxl]
    · cases c.hash <;> simp [hashPart, hurn, hxt]
  · split_ifs
    · rfl
    · simp [hkt, hplus]

/-! ## What comes back -/

/-- **A link without stray separators gives everything back.** -/
theorem givesBack_of_free {c : Content} {link : Str} (h : c.magnetLink = some link)
    (hfree : ∀ part ∈ c.linkParts, (38 : UInt8) ∉ part)
    (hkeywords : ∀ keyword ∈ c.keywords, (43 : UInt8) ∉ keyword) : c.GivesBack link := by
  refine ⟨c.body.map fun body => toText body.length,
    c.hash.map fun h => str "urn:" ++ h.algorithm.jcaName.map toLower ++ str ":" ++ h.hashValue,
    if c.keywords = [] then none else some ([43].intercalate c.keywords), ?_, ?_, ?_, ?_⟩
  · rw [parameters_of_free h hfree, map_parameter_linkParts, Option.map_map, Option.map_map]
    congr 1
    split_ifs <;> rfl
  · rw [Option.map_map]
    exact Option.map_congr fun body _ => readLength_toText body.length
  · rw [Option.map_map]
    exact Option.map_congr fun h _ => readHash_hashPart h
  · split_ifs with hempty
    · exact hempty.symm
    · exact List.splitOn_intercalate 43 hkeywords hempty

/-- A link that gives everything back has as many parameters as parts. -/
lemma GivesBack.free {c : Content} {link : Str} (h : c.magnetLink = some link)
    (hback : c.GivesBack link) : ∀ part ∈ c.linkParts, (38 : UInt8) ∉ part := by
  obtain ⟨hne, hlink⟩ := linkParts_of_magnetLink h
  obtain ⟨xl, xt, kt, hparams, hxl, hxt, hkt⟩ := hback
  have hxlSome := congrArg (fun o => o.toList.length) hxl
  have hxtSome := congrArg (fun o => o.toList.length) hxt
  have hktSome : kt.toList.length = if c.keywords = [] then 0 else 1 := by
    cases kt with
    | none =>
      rw [← hkt]
      rfl
    | some v =>
      rw [← hkt, Option.map_some, Option.getD_some, if_neg (List.splitOn_ne_nil 43 v)]
      rfl
  rw [← Separated.length_splitOn_intercalate_iff 38 hne, ← hlink, length_linkParts, ← hktSome]
  have hlength := congrArg List.length hparams
  rw [linkParameters, List.length_map] at hlength
  rw [hlength]
  simp only [List.length_append, Option.length_toList, Option.isSome_map] at hxlSome hxtSome ⊢
  rw [hxlSome, hxtSome]

/-- A link that gives everything back has the keywords it was made of between its `+` characters. -/
lemma GivesBack.keywords {c : Content} {link : Str} (h : c.magnetLink = some link)
    (hback : c.GivesBack link) : ∀ keyword ∈ c.keywords, (43 : UInt8) ∉ keyword := by
  by_cases hempty : c.keywords = []
  · simp [hempty]
  · have hparts := parameters_of_free h (hback.free h)
    obtain ⟨xl, xt, kt, hparams, -, -, hkt⟩ := hback
    cases kt with
    | none => exact absurd hkt.symm hempty
    | some v =>
      have hlast := congrArg List.getLast? (hparams.symm.trans hparts)
      rw [map_parameter_linkParts, if_neg hempty] at hlast
      have hv : v = [43].intercalate c.keywords := by simpa using hlast
      rw [Option.map_some, Option.getD_some, hv] at hkt
      exact (Separated.splitOn_intercalate_iff 43 hempty).mp hkt

/-- **Of which content the link gives back everything**: of content whose hash value has no `&`, and
whose keywords have neither `&` nor `+`.

**Proof sketch.** There is one parameter more than `&` characters in the link; if the parameters
are as many as the parts, then no part contains an `&`, and the parameters are the parts. The same
holds of the keywords inside the last part, and of `+`. -/
theorem givesBack_iff (c : Content) (link : Str) (h : c.magnetLink = some link) :
    c.GivesBack link ↔
      (∀ hash, c.hash = some hash → (38 : UInt8) ∉ hash.hashValue) ∧
        ∀ keyword ∈ c.keywords, (38 : UInt8) ∉ keyword ∧ (43 : UInt8) ∉ keyword := by
  constructor
  · intro hback
    obtain ⟨hhash, hkeywords⟩ := c.linkParts_free_iff.mp (hback.free h)
    exact ⟨hhash, fun keyword hmem => ⟨hkeywords keyword hmem, hback.keywords h keyword hmem⟩⟩
  · rintro ⟨hhash, hkeywords⟩
    exact givesBack_of_free h
      (c.linkParts_free_iff.mpr ⟨hhash, fun keyword hmem => (hkeywords keyword hmem).1⟩)
      fun keyword hmem => (hkeywords keyword hmem).2

/-- Content with a body, a hash and two keywords. -/
def tagged : Content :=
  { kind := .text, contentType := str "text/plain", body := some (str "text"),
    hash := some ⟨str "12AF", .sha1⟩, keywords := [str "alpha", str "beta"] }

/-- `givesBack_iff` for `tagged`. -/
theorem givesBack_iff_tagged :
    tagged.GivesBack (str "magnet:?xl=4&xt=urn:sha-1:12AF&kt=alpha+beta") :=
  (givesBack_iff tagged _ (by decide +kernel)).mpr
    ⟨by simp [tagged]; decide, by simp [tagged]; decide⟩

/-- A keyword adds a second hash to the link. -/
theorem givesBack_injected :
    ¬ ∀ (c : Content) (link : Str), c.magnetLink = some link → c.GivesBack link := by
  intro hall
  let c : Content := { kind := .text, contentType := str "text/plain",
                       keywords := [str "a&xt=urn:sha-1:0"] }
  have hlink : c.magnetLink = some (str "magnet:?kt=a&xt=urn:sha-1:0") := by
    decide +kernel
  obtain ⟨xl, xt, kt, hparams, hxl, hxt, -⟩ := hall c _ hlink
  have hparts : linkParameters (str "magnet:?kt=a&xt=urn:sha-1:0") =
      [(str "kt", str "a"), (str "xt", str "urn:sha-1:0")] := by
    decide +kernel
  obtain rfl : xl = none := by simpa [c] using hxl
  obtain rfl : xt = none := by simpa [c] using hxt
  rw [hparts] at hparams
  cases kt <;> simp at hparams

end Content

end RaCommon
