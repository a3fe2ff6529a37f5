import RaCommon.Crypto.EncryptionAlgorithm
import RaCommon.Crypto.Hash
import RaCommon.Encoding.Base64

set_option relaxedAutoImplicit false
set_option autoImplicit false

/-!
# Content and its JSON form (`content.hpp`)

A piece of content of one of seven kinds, with its body, what is known about it, and children that
are content themselves, to any depth.

## Main definitions

* `RaCommon.ContentKind` — the kinds.
* `RaCommon.Content` — content, with `toJson` and `fromJson`.

## Main results

* `RaCommon.Content.fromJson_toJson` — content is read back, with all that is below it.
-/

namespace RaCommon

/-! ## Kinds -/

/-- `ContentKind`. -/
inductive ContentKind where
  | text
  | html
  | json
  | image
  | audio
  | video
  | binary
  deriving DecidableEq, Repr

/-- `ToString(ContentKind)`. -/
def ContentKind.toStr : ContentKind → Str
  | .text => str "Text"
  | .html => str "Html"
  | .json => str "Json"
  | .image => str "Image"
  | .audio => str "Audio"
  | .video => str "Video"
  | .binary => str "Binary"

/-- `ContentKindFromString`: every other text is taken for `Binary`. -/
def contentKindFromString (s : Str) : ContentKind :=
  if s = str "Text" then .text
  else if s = str "Html" then .html
  else if s = str "Json" then .json
  else if s = str "Image" then .image
  else if s = str "Audio" then .audio
  else if s = str "Video" then .video
  else .binary

/-- The name of a kind is read back. -/
@[simp] lemma contentKindFromString_toStr (k : ContentKind) :
    contentKindFromString k.toStr = k := by
  cases k <;> simp [contentKindFromString, ContentKind.toStr]

/-! ## Content -/

/-- `Content`. The constructor takes the kind and the content type. -/
structure Content where
  kind : ContentKind
  contentType : Str
  version : Int32 := 0
  id : Option Str := none
  label : Option Str := none
  name : Option Str := none
  location : Option Str := none
  size : UInt64 := 0
  authorAlias : Option Str := none
  authorAddress : Option Str := none
  body : Option Bytes := none
  bodyEncoding : Option Str := none
  bodyBase64Encoded : Bool := false
  createdAt : Option Int64 := none
  hash : Option Hash := none
  hashAlgorithm : HashAlgorithm := .sha256
  fingerprint : Option Hash := none
  fingerprintAlgorithm : HashAlgorithm := .sha1
  children : List Content := []
  encrypted : Bool := false
  encryptionAlgorithm : Option EncryptionAlgorithm := none
  encryptionPassphrase : Option Str := none
  encryptionPassphraseEncrypted : Bool := false
  encryptionPassphraseAlgorithm : Option EncryptionAlgorithm := none
  base64EncodedIv : Option Str := none
  keywords : List Str := []
  readable : Bool := false
  writeable : Bool := false

namespace Content

/-- The children are smaller than their parent. -/
lemma sizeOf_children (c : Content) : sizeOf c.children < sizeOf c := by
  cases c
  simp only [mk.sizeOf_spec]
  omega

/-! ## Writing -/

/-- The conversion of a body. -/
def bodyToJson (body : Bytes) : Json := .string (Base64.base64Encode body)

mutual

/-- `Content::ToJson`. -/
def toJson (c : Content) : Json :=
  .object <| Fields.of
      [(str "type", .string c.kind.toStr), (str "content_type", .string c.contentType),
        (str "version", .ofInt c.version)]
    |>.setOpt (str "id") c.id .string
    |>.setOpt (str "label") c.label .string
    |>.setOpt (str "name") c.name .string
    |>.setOpt (str "location") c.location .string
    |>.setOpt (str "author_alias") c.authorAlias .string
    |>.setOpt (str "author_address") c.authorAddress .string
    |>.setOpt (str "body") c.body bodyToJson
    |>.setOpt (str "body_encoding") c.bodyEncoding .string
    |>.setOpt (str "created_at") c.createdAt .numberInteger
    |>.setOpt (str "hash") c.hash Hash.toJson
    |>.setOpt (str "fingerprint") c.fingerprint Hash.toJson
    |>.setOpt (str "encryption_algorithm") c.encryptionAlgorithm EncryptionAlgorithm.toJson
    |>.setOpt (str "encryption_passphrase") c.encryptionPassphrase .string
    |>.setOpt (str "encryption_passphrase_algorithm") c.encryptionPassphraseAlgorithm
      EncryptionAlgorithm.toJson
    |>.setOpt (str "base64_encoded_iv") c.base64EncodedIv .string
    |>.set (str "size") (.numberUnsigned c.size)
    |>.set (str "body_base64_encoded") (.boolean c.bodyBase64Encoded)
    |>.set (str "hash_algorithm") (.string c.hashAlgorithm.toStr)
    |>.set (str "fingerprint_algorithm") (.string c.fingerprintAlgorithm.toStr)
    |>.set (str "encrypted") (.boolean c.encrypted)
    |>.set (str "encryption_passphrase_encrypted") (.boolean c.encryptionPassphraseEncrypted)
    |>.set (str "readable") (.boolean c.readable)
    |>.set (str "writeable") (.boolean c.writeable)
    |>.setIf (!c.children.isEmpty) (str "children") (.array (childrenToJson c.children))
    |>.setIf (!c.keywords.isEmpty) (str "keywords") (.ofStrings c.keywords)
termination_by 2 * sizeOf c
decreasing_by
  have := c.sizeOf_children
  omega

/-- The loop of `Content::ToJson` over the children. -/
def childrenToJson : List Content → List Json
  | [] => []
  | c :: cs => c.toJson :: childrenToJson cs
termination_by cs => 2 * sizeOf cs + 1

end

/-! ## Reading -/

/-- `Base64Decode(data.get<std::string>())`. -/
def bodyFromJson (data : Json) : Outcome Bytes := do Base64.base64Decode (← data.getString)

/-- `ParseHashAlgorithm(data.get<std::string>())`. -/
def algorithmFromJson (data : Json) : Outcome HashAlgorithm := do
  parseHashAlgorithm (← data.getString)

mutual

/-- `Content::FromJson`. -/
def fromJson (data : Json) : Outcome Content := do
  let kind := contentKindFromString (← (← data.at (str "type")).getString)
  let contentType ← (← data.at (str "content_type")).getString
  let version ← data.value (str "version") Json.getInt 0
  let id ← data.optional (str "id") Json.getString
  let label ← data.optional (str "label") Json.getString
  let name ← data.optional (str "name") Json.getString
  let location ← data.optional (str "location") Json.getString
  let size ← data.value (str "size") Json.getSize 0
  let authorAlias ← data.optional (str "author_alias") Json.getString
  let authorAddress ← data.optional (str "author_address") Json.getString
  let body ← data.optional (str "body") bodyFromJson
  let bodyEncoding ← data.optional (str "body_encoding") Json.getString
  let bodyBase64Encoded ← data.value (str "body_base64_encoded") Json.getBool false
  let createdAt ← data.optional (str "created_at") Json.getInt64
  let hash ← data.optional (str "hash") Hash.fromJson
  let hashAlgorithm ← data.orDefault (str "hash_algorithm") algorithmFromJson .sha256
  let fingerprint ← data.optional (str "fingerprint") Hash.fromJson
  let fingerprintAlgorithm ← data.orDefault (str "fingerprint_algorithm") algorithmFromJson .sha1
  let children ←
    (match _h : data.find? (str "children") with
    | none => .ok []
    | some v => childrenFromJson v.elems : Outcome (List Content))
  let encrypted ← data.value (str "encrypted") Json.getBool false
  let encryptionAlgorithm ← data.optional (str "encryption_algorithm") EncryptionAlgorithm.fromJson
  let encryptionPassphrase ← data.optional (str "encryption_passphrase") Json.getString
  let encryptionPassphraseEncrypted ←
    data.value (str "encryption_passphrase_encrypted") Json.getBool false
  let encryptionPassphraseAlgorithm ←
    data.optional (str "encryption_passphrase_algorithm") EncryptionAlgorithm.fromJson
  let base64EncodedIv ← data.optional (str "base64_encoded_iv") Json.getString
  let keywords ← data.orDefault (str "keywords") Json.getStrings []
  let readable ← data.value (str "readable") Json.getBool false
  let writeable ← data.value (str "writeable") Json.getBool false
  .ok { kind, contentType, version, id, label, name, location, size, authorAlias, authorAddress,
        body, bodyEncoding, bodyBase64Encoded, createdAt, hash, hashAlgorithm, fingerprint,
        fingerprintAlgorithm, children, encrypted, encryptionAlgorithm, encryptionPassphrase,
        encryptionPassphraseEncrypted, encryptionPassphraseAlgorithm, base64EncodedIv, keywords,
        readable, writeable }
termination_by 2 * sizeOf data
decreasing_by
  have := Json.sizeOf_of_find? _h
  have := Json.sizeOf_elems v
  omega

/-- The loop of `Content::FromJson` over the children. -/
def childrenFromJson : List Json → Outcome (List Content)
  | [] => .ok []
  | v :: vs => do
    let c ← fromJson v
    .ok (c :: (← childrenFromJson vs))
termination_by l => 2 * sizeOf l + 1

end

/-- What `childrenFromJson` makes of the member found, without the bound its recursion needs. -/
lemma readOr_children (data : Json) :
    (match _h : data.find? (str "children") with
      | none => .ok []
      | some v => childrenFromJson v.elems : Outcome (List Content)) =
      Json.readOr (fun v => childrenFromJson v.elems) [] (data.find? (str "children")) := by
  split
  · next h => rw [h, Json.readOr]
  · next h => rw [h, Json.readOr]

/-! ## Reading what was written -/

/-- An optional body that was written is read back. -/
@[simp] lemma readOption_body (o : Option Bytes) :
    Json.readOption bodyFromJson (o.map bodyToJson) = .ok o := by
  have h : Json.readOption bodyFromJson (o.map bodyToJson) = .ok (o.map fun body => body) :=
    Json.readOption_map fun body _ => by
      rw [bodyFromJson, bodyToJson, Json.getString_string, Outcome.ok_bind]
      exact Base64.base64Decode_base64Encode body
  rwa [Option.map_id_fun'] at h

@[simp] lemma algorithmFromJson_string (a : HashAlgorithm) :
    algorithmFromJson (.string a.toStr) = .ok a := by
  simp [algorithmFromJson]

mutual

/-- **Content is read back**, in every field and with all that is below it.

**Proof sketch.** By recursion on the content. Every member of the object that `toJson` builds is
found under its own key and read back by its reader (`simp`); a list of children that is not written
because it is empty is read as the empty list. -/
theorem fromJson_toJson (c : Content) : fromJson c.toJson = .ok c := by
  have helems : childrenFromJson (Json.array (childrenToJson c.children)).elems = .ok c.children :=
    childrenFromJson_childrenToJson c.children
  have hchildren := Json.readOr_nil (fun v => childrenFromJson v.elems) helems
  have hkeywords := Json.readOr_nil Json.getStrings (Json.getStrings_ofStrings c.keywords)
  rw [fromJson, toJson]
  simp only [readOr_children]
  simp only [Json.find?_object]
  simp [hchildren, hkeywords]
  cases c
  rfl
termination_by 2 * sizeOf c
decreasing_by
  have := c.sizeOf_children
  omega

/-- The loop over the children reads back what the loop over the children wrote. -/
lemma childrenFromJson_childrenToJson (cs : List Content) :
    childrenFromJson (childrenToJson cs) = .ok cs := by
  cases cs with
  | nil => rw [childrenToJson, childrenFromJson]
  | cons c cs =>
    rw [childrenToJson, childrenFromJson, c.fromJson_toJson, Outcome.ok_bind,
      childrenFromJson_childrenToJson cs]
    rfl
termination_by 2 * sizeOf cs + 1

end

/-- **The JSON round trip of content**: whatever its fields and however deep its children, content
that is written is read back as the same value. -/
theorem content_read_back (c : Content) : fromJson c.toJson = .ok c := fromJson_toJson c

end Content

end RaCommon
