import RaCommon.Content.Content
import RaCommon.Crypto.HashUtil
import RaCommon.Library.Transition
import RaCommon.Util.RandomUtil

set_option relaxedAutoImplicit false
set_option autoImplicit false

/-!
# The body of content (`content.hpp`)

`SetBody` stores a new body and its size, and makes a new hash and a new fingerprint when its two
flags ask for them. What an earlier call has made stays otherwise, also when it describes a body
or a hash that is no longer there.

## Main definitions

* `RaCommon.Content.setBody`, `RaCommon.Content.build` — the functions that set the body.
* `RaCommon.Content.magnetLink` — the link made of size, hash and keywords.
* `RaCommon.Content.Described` — size, hash and fingerprint are those of the current body.
* `RaCommon.Content.SetBodyCall`, `RaCommon.Content.step` — sequences of calls, of which some may
  throw.
* `RaCommon.Content.Refreshes` — a call that leaves nothing stale behind.
* `RaCommon.Content.Atomic`, `RaCommon.Content.SetsWhole` — a call that returns or changes nothing,
  and when a call of `SetBody` is one.

## Main results

* `RaCommon.Content.described_step_iff` — a call keeps size, hash and fingerprint those of the body
  exactly if it is one.
* `RaCommon.Content.body_described` — in which runs on created content they are those of the body.
* `RaCommon.Content.setBody_atomic_iff` — exactly when `SetBody` is atomic.
-/

namespace RaCommon

/-- `ContentKindForType`. -/
def contentKindForType (contentType : Str) : Option ContentKind :=
  if (str "text/plain").isPrefixOf contentType then some .text
  else if (str "text/html").isPrefixOf contentType then some .html
  else if (str "application/json").isPrefixOf contentType then some .json
  else if (str "image/").isPrefixOf contentType then some .image
  else if (str "audio/").isPrefixOf contentType then some .audio
  else if (str "video/").isPrefixOf contentType then some .video
  else none

namespace Content

open HashUtil

/-! ## Setting the body -/

/-- The hash after `SetBody`, with what the draw of its salt gives. -/
def newHash (entropy : Option Salt) (c : Content) (body : Bytes) (generateHash : Bool) :
    Outcome (Option Hash) :=
  if generateHash then do
    let salt ← drawSalt entropy
    .ok (some ⟨← HashUtil.generateHash salt body c.hashAlgorithm, c.hashAlgorithm⟩)
  else .ok c.hash

/-- The fingerprint after `SetBody`, given the hash. -/
def newFingerprint (c : Content) (hash : Option Hash) (generateFingerprint : Bool) :
    Outcome (Option Hash) :=
  match generateFingerprint, hash with
  | true, some h => do
    let fp ← HashUtil.generateFingerprint h.hashValue c.fingerprintAlgorithm
    .ok (some ⟨fp, c.fingerprintAlgorithm⟩)
  | _, _ => .ok c.fingerprint

/-- `SetBody`, with what the draw of its salt gives: the content afterwards, and how the call has
ended. -/
def setBody (entropy : Option Salt) (c : Content) (body : Bytes)
    (generateHash generateFingerprint : Bool) : Content × Outcome Unit :=
  let c := { c with size := UInt64.ofNat body.length }
  match newHash entropy c body generateHash with
  | .error e => (c, .error e)
  | .ok hash =>
    let c := { c with hash }
    match newFingerprint c hash generateFingerprint with
    | .error e => (c, .error e)
    | .ok fingerprint =>
      let c := { c with fingerprint, body := some body }
      match checkInt (c.version.toInt + 1) with
      | .error e => (c, .error e)
      | .ok version => ({ c with version := Int32.ofInt version }, .ok ())

/-- The content after a call of `SetBody` that draws a salt and returns. -/
def withBody (salt : Salt) (c : Content) (body : Bytes)
    (generateHash generateFingerprint : Bool) : Outcome Content :=
  let r := c.setBody (some salt) body generateHash generateFingerprint
  do
    r.2
    .ok r.1

/-- What `Build` draws: the salt of its hash, the milliseconds of the clock, and the bytes of the
id. -/
structure BuildDraw where
  salt : Salt
  now : Int64
  idBytes : {b : Bytes // b.length = 32}

/-- `Build`. -/
def build (d : BuildDraw) (body : Bytes) (contentType : Str) (label name : Option Str)
    (generateHash generateFingerprint : Bool) : Outcome Content :=
  match contentKindForType contentType with
  | none => .error (.invalid (str "unsupported content type: " ++ contentType))
  | some kind => do
    let c : Content :=
      { kind, contentType, label, name
        bodyEncoding := (find (str "charset:") contentType).map fun pos =>
          contentType.drop (pos + 8) }
    let c ← c.withBody d.salt body generateHash generateFingerprint
    .ok { c with createdAt := some d.now, id := some (randomAlphanumeric d.idBytes) }

/-- `std::tolower` in the C locale. -/
def toLower (c : UInt8) : UInt8 := if 65 ≤ c && c ≤ 90 then c + 32 else c

/-- The part of the link that names the hash. -/
def hashPart (h : Hash) : Str :=
  str "xt=urn:" ++ h.algorithm.jcaName.map toLower ++ str ":" ++ h.hashValue

/-- `MagnetLink`. -/
def magnetLink (c : Content) : Option Str :=
  let parts :=
    (c.body.map fun body => str "xl=" ++ toText body.length).toList ++
      (c.hash.map hashPart).toList ++
        if c.keywords = [] then [] else [str "kt=" ++ (str "+").intercalate c.keywords]
  if parts = [] then none else some (str "magnet:?" ++ (str "&").intercalate parts)

/-! ## Runs -/

/-- A call of `SetBody`, with what the draw of its salt gives. -/
structure SetBodyCall where
  body : Bytes
  generateHash : Bool
  generateFingerprint : Bool
  entropy : Option Salt

/-- The content after a call, whether it returns or throws. Where the version cannot be increased
the behaviour is undefined, and there is none. -/
def step (c : Content) (call : SetBodyCall) : Option Content :=
  let r := c.setBody call.entropy call.body call.generateHash call.generateFingerprint
  if r.2 = .error .undefinedBehavior then none else some r.1

/-- Content as the constructor or `Build` creates it. -/
def Created (c : Content) : Prop :=
  (∃ kind contentType, c = { kind, contentType }) ∨
    ∃ d body contentType label name generateHash generateFingerprint,
      build d body contentType label name generateHash generateFingerprint = .ok c

/-- Size, hash and fingerprint are those of the current body. -/
structure Described (c : Content) : Prop where
  size_eq : ∀ body, c.body = some body → c.size = UInt64.ofNat body.length
  hash_verifies : ∀ h, c.hash = some h → ∃ body, c.body = some body ∧
    verifyHash body h.hashValue h.algorithm = .ok true
  fingerprint_eq : ∀ fp, c.fingerprint = some fp → ∃ h, c.hash = some h ∧
    generateFingerprint h.hashValue c.fingerprintAlgorithm = .ok fp.hashValue

/-- The salt of a hash is asked for, and the draw fails. -/
def DrawFails (entropy : Option Salt) (generateHash : Bool) : Prop :=
  generateHash = true ∧ entropy = none

/-- **A call that leaves nothing stale behind.** Where the draw of a salt fails, only the size is
new. Otherwise a hash that stays has to be good for the new body, and a fingerprint that stays has
to be that of the new hash. -/
structure Refreshes (c : Content) (call : SetBodyCall) : Prop where
  size_eq : DrawFails call.entropy call.generateHash → ∀ body, c.body = some body →
    UInt64.ofNat call.body.length = UInt64.ofNat body.length
  verifies : call.generateHash = true ∨ ∀ h, c.hash = some h →
    verifyHash call.body h.hashValue h.algorithm = .ok true
  fingerprint_eq : call.generateHash = true → call.generateFingerprint = true ∨
    ∀ salt fp, call.entropy = some salt → c.fingerprint = some fp →
      ∃ text, HashUtil.generateHash salt call.body c.hashAlgorithm = .ok text ∧
        generateFingerprint text c.fingerprintAlgorithm = .ok fp.hashValue

/-! ## What a call does -/

/-- The hash that is made of a salt that is drawn. -/
lemma newHash_some (salt : Salt) (c : Content) (body : Bytes) : ∃ text,
    HashUtil.generateHash salt body c.hashAlgorithm = .ok text ∧
      newHash (some salt) c body true = .ok (some ⟨text, c.hashAlgorithm⟩) := by
  obtain ⟨text, htext⟩ := generateHash_total salt body c.hashAlgorithm
  refine ⟨text, htext, ?_⟩
  simp only [newHash, drawSalt, if_true, Outcome.ok_bind, htext]

/-- A hash is made, or the present one kept, unless the draw fails. -/
lemma newHash_total {entropy : Option Salt} {generateHash : Bool}
    (h : ¬ DrawFails entropy generateHash) (c : Content) (body : Bytes) :
    ∃ hash, newHash entropy c body generateHash = .ok hash ∧
      (hash ≠ none ↔ generateHash = true ∨ c.hash ≠ none) := by
  cases generateHash with
  | false => exact ⟨c.hash, rfl, by simp⟩
  | true =>
    cases entropy with
    | none => exact absurd ⟨rfl, rfl⟩ h
    | some salt =>
      obtain ⟨text, -, hnew⟩ := newHash_some salt c body
      exact ⟨some ⟨text, c.hashAlgorithm⟩, hnew, by simp⟩

/-- A fingerprint is made, or the present one kept, unless its algorithm is no digest. -/
lemma newFingerprint_total {c : Content} {hash : Option Hash} {generateFingerprint : Bool}
    (h : generateFingerprint = true → hash ≠ none → c.fingerprintAlgorithm ≠ .pbkdf2HmacSha1) :
    ∃ fingerprint, newFingerprint c hash generateFingerprint = .ok fingerprint := by
  cases generateFingerprint with
  | false => exact ⟨c.fingerprint, rfl⟩
  | true =>
    cases hash with
    | none => exact ⟨c.fingerprint, rfl⟩
    | some new =>
      obtain ⟨d, hd⟩ := digest_total (h rfl (by simp)) new.hashValue
      refine ⟨some ⟨toHex d, c.fingerprintAlgorithm⟩, ?_⟩
      simp only [newFingerprint, HashUtil.generateFingerprint, hd, Outcome.ok_bind]

/-- The fingerprint after a call is the new one of the hash, or the one before it. -/
lemma newFingerprint_cases {c : Content} {hash fingerprint : Option Hash}
    {generateFingerprint : Bool}
    (h : newFingerprint c hash generateFingerprint = .ok fingerprint) :
    (∃ new fp, hash = some new ∧ fingerprint = some fp ∧
      HashUtil.generateFingerprint new.hashValue c.fingerprintAlgorithm = .ok fp.hashValue) ∨
    fingerprint = c.fingerprint ∧ (generateFingerprint = true → hash = none) := by
  unfold newFingerprint at h
  split at h
  · next new =>
    obtain ⟨text, htext, h⟩ := Outcome.bind_eq_ok.mp h
    obtain rfl := Except.ok.inj h
    exact .inl ⟨new, _, rfl, rfl, htext⟩
  · next hne =>
    obtain rfl := Except.ok.inj h
    refine .inr ⟨rfl, fun hgen => ?_⟩
    cases hash with
    | none => rfl
    | some new => exact absurd rfl (hne new hgen)

/-- A draw that gives a salt does not fail. -/
lemma not_drawFails (salt : Salt) (generateHash : Bool) : ¬ DrawFails (some salt) generateHash :=
  fun h => Option.some_ne_none salt h.2

/-- What a call leaves when the draw fails: the new size. -/
lemma setBody_of_drawFails {entropy : Option Salt} {generateHash : Bool}
    (h : DrawFails entropy generateHash) (c : Content) (body : Bytes)
    (generateFingerprint : Bool) :
    c.setBody entropy body generateHash generateFingerprint =
      ({ c with size := UInt64.ofNat body.length },
        .error (.crypto (str "getentropy failed"))) := by
  obtain ⟨rfl, rfl⟩ := h
  rfl

/-- How a call ends when hash and fingerprint are there: as the increase of the version does. -/
lemma setBody_snd {entropy : Option Salt} {c : Content} {body : Bytes}
    {generateHash generateFingerprint : Bool} {hash fingerprint : Option Hash}
    (hhash : newHash entropy c body generateHash = .ok hash)
    (hfingerprint : newFingerprint c hash generateFingerprint = .ok fingerprint) :
    (c.setBody entropy body generateHash generateFingerprint).2 =
      (checkInt (c.version.toInt + 1)).map fun _ => () := by
  have hhash' : newHash entropy { c with size := UInt64.ofNat body.length } body generateHash =
      .ok hash := hhash
  have hfingerprint' : newFingerprint { c with size := UInt64.ofNat body.length, hash } hash
      generateFingerprint = .ok fingerprint := hfingerprint
  simp only [setBody, hhash', hfingerprint']
  cases checkInt (c.version.toInt + 1) with
  | error e => rfl
  | ok version => rfl

/-- The fields a call that returns has set, and one it leaves alone. -/
structure SetBy (c c' : Content) (call : SetBodyCall) : Prop where
  body_eq : c'.body = some call.body
  size_eq : c'.size = UInt64.ofNat call.body.length
  hash_eq : newHash call.entropy c call.body call.generateHash = .ok c'.hash
  fingerprint_eq : newFingerprint c c'.hash call.generateFingerprint = .ok c'.fingerprint
  algorithm_eq : c'.fingerprintAlgorithm = c.fingerprintAlgorithm

/-- The size is that of the new body. -/
lemma SetBy.size_eq_of_body {c c' : Content} {call : SetBodyCall} (h : SetBy c c' call)
    (body : Bytes) (hbody : c'.body = some body) : c'.size = UInt64.ofNat body.length := by
  obtain rfl := Option.some.inj (h.body_eq.symm.trans hbody)
  exact h.size_eq

/-- What a call that returns does. -/
lemma setBy_of_setBody {c : Content} {entropy : Option Salt} {body : Bytes}
    {generateHash generateFingerprint : Bool}
    (hend : (c.setBody entropy body generateHash generateFingerprint).2 = .ok ()) :
    SetBy c (c.setBody entropy body generateHash generateFingerprint).1
      ⟨body, generateHash, generateFingerprint, entropy⟩ := by
  unfold setBody at hend ⊢
  cases hhash : newHash entropy { c with size := UInt64.ofNat body.length } body
      generateHash with
  | error e => simp [hhash] at hend
  | ok hash =>
    simp only [hhash] at hend ⊢
    cases hfp : newFingerprint { c with size := UInt64.ofNat body.length, hash } hash
        generateFingerprint with
    | error e => simp [hfp] at hend
    | ok fingerprint =>
      simp only [hfp] at hend ⊢
      cases hversion : checkInt (c.version.toInt + 1) with
      | error e => simp [hversion] at hend
      | ok version =>
        exact ⟨rfl, rfl, hhash, hfp, rfl⟩

/-- **What a step can be**, where the algorithm of the fingerprint is a digest: the draw fails and
the size is new, or the call returns. -/
theorem step_cases {c c' : Content} {call : SetBodyCall}
    (halgorithm : c.fingerprintAlgorithm ≠ .pbkdf2HmacSha1) (h : c.step call = some c') :
    DrawFails call.entropy call.generateHash ∧
        c' = { c with size := UInt64.ofNat call.body.length } ∨
      ¬ DrawFails call.entropy call.generateHash ∧ SetBy c c' call := by
  rw [step] at h
  split_ifs at h with hundefined
  obtain rfl := Option.some.inj h
  by_cases hdraw : DrawFails call.entropy call.generateHash
  · exact .inl ⟨hdraw, by rw [setBody_of_drawFails hdraw]⟩
  · obtain ⟨hash, hhash, -⟩ := newHash_total hdraw c call.body
    obtain ⟨fingerprint, hfingerprint⟩ : ∃ fingerprint,
        newFingerprint c hash call.generateFingerprint = .ok fingerprint :=
      newFingerprint_total fun _ _ => halgorithm
    have hend := setBody_snd hhash hfingerprint
    refine .inr ⟨hdraw, setBy_of_setBody (hend.trans ?_)⟩
    cases hversion : checkInt (c.version.toInt + 1) with
    | ok version => rfl
    | error e =>
      rw [hend, hversion] at hundefined
      rw [checkInt] at hversion
      split_ifs at hversion
      obtain rfl := Except.error.inj hversion
      exact absurd rfl hundefined

/-- A call that makes a hash makes one that is good for its body. -/
lemma verifyHash_of_newHash {c : Content} {entropy : Option Salt} {body : Bytes}
    {hash : Option Hash} (h : newHash entropy c body true = .ok hash) :
    ∃ salt text, entropy = some salt ∧ hash = some ⟨text, c.hashAlgorithm⟩ ∧
      HashUtil.generateHash salt body c.hashAlgorithm = .ok text ∧
      verifyHash body text c.hashAlgorithm = .ok true := by
  obtain ⟨salt, hsalt, h⟩ := Outcome.bind_eq_ok.mp h
  obtain ⟨text, htext, h⟩ := Outcome.bind_eq_ok.mp h
  obtain rfl := Except.ok.inj h
  refine ⟨salt, text, ?_, rfl, htext, verifyHash_generateHash htext⟩
  cases entropy with
  | none => cases hsalt
  | some salt' => exact congrArg some (Except.ok.inj hsalt)

/-- Where the draw fails, what is said of the body stays right if the size does. -/
lemma described_of_drawFails {c : Content} (h : c.Described) (size : UInt64) :
    Described { c with size } ↔ ∀ body, c.body = some body → size = UInt64.ofNat body.length :=
  ⟨fun hnew => hnew.size_eq, fun hsize => ⟨hsize, h.hash_verifies, h.fingerprint_eq⟩⟩

/-- A call that keeps the hash keeps what is said of the body if that hash is good for the new body:
a new fingerprint is that of the hash, and an old one was. -/
lemma SetBy.described_iff_of_kept {c c' : Content} {body : Bytes} {generateFingerprint : Bool}
    {entropy : Option Salt} (h : c.Described)
    (hset : SetBy c c' ⟨body, false, generateFingerprint, entropy⟩) :
    c'.Described ↔ c.Refreshes ⟨body, false, generateFingerprint, entropy⟩ := by
  have hsize := hset.size_eq_of_body
  obtain ⟨hbody, -, hhash, hfingerprint, halgorithm⟩ := hset
  have hsame : c.hash = c'.hash := Except.ok.inj hhash
  constructor
  · intro h'
    refine ⟨fun hfails => absurd hfails.1 Bool.false_ne_true, .inr fun old hold => ?_,
      fun hgen => by cases hgen⟩
    obtain ⟨body', hbody', hgood⟩ := h'.hash_verifies old (hsame ▸ hold)
    obtain rfl := Option.some.inj (hbody.symm.trans hbody')
    exact hgood
  · intro hrefresh
    have hverify := hrefresh.verifies.resolve_left Bool.false_ne_true
    refine ⟨hsize, fun old hold => ⟨body, hbody, hverify old (hsame ▸ hold)⟩,
      fun fp hfp => ?_⟩
    rw [halgorithm]
    rcases newFingerprint_cases hfingerprint with ⟨new, fp', hnew, hfp', hgen⟩ | ⟨hold, -⟩
    · obtain rfl := Option.some.inj (hfp'.symm.trans hfp)
      exact ⟨new, hnew, hgen⟩
    · rw [← hsame]
      exact h.fingerprint_eq fp (hold.symm.trans hfp)

/-- A call that makes a hash keeps what is said of the body if the fingerprint is that of the new
hash: a new one is, and an old one has to be. -/
lemma SetBy.described_iff_of_made {c c' : Content} {body : Bytes} {generateFingerprint : Bool}
    {entropy : Option Salt} (hdraw : ¬ DrawFails entropy true)
    (hset : SetBy c c' ⟨body, true, generateFingerprint, entropy⟩) :
    c'.Described ↔ c.Refreshes ⟨body, true, generateFingerprint, entropy⟩ := by
  have hsize := hset.size_eq_of_body
  obtain ⟨hbody, -, hhash, hfingerprint, halgorithm⟩ := hset
  obtain ⟨salt, text, rfl, hnew, htext, hgood⟩ := verifyHash_of_newHash hhash
  have hverifies : ∀ new, c'.hash = some new → ∃ body', c'.body = some body' ∧
      verifyHash body' new.hashValue new.algorithm = .ok true := by
    intro new hc
    obtain rfl := Option.some.inj (hnew.symm.trans hc)
    exact ⟨body, hbody, hgood⟩
  cases generateFingerprint with
  | true =>
    refine iff_of_true ⟨hsize, hverifies, fun fp hfp => ?_⟩
      ⟨fun hfails => absurd hfails hdraw, .inl rfl, fun _ => .inl rfl⟩
    rw [halgorithm]
    rcases newFingerprint_cases hfingerprint with ⟨new, fp', hc, hfp', hgen⟩ | ⟨-, hnone⟩
    · obtain rfl := Option.some.inj (hfp'.symm.trans hfp)
      exact ⟨new, hc, hgen⟩
    · rw [hnone rfl] at hnew
      cases hnew
  | false =>
    have hold : c.fingerprint = c'.fingerprint := Except.ok.inj hfingerprint
    constructor
    · intro h'
      refine ⟨fun hfails => absurd hfails hdraw, .inl rfl, fun _ => .inr ?_⟩
      rintro _ fp ⟨⟩ hfp
      obtain ⟨new, hc, hgen⟩ := h'.fingerprint_eq fp (hold.symm.trans hfp)
      obtain rfl := Option.some.inj (hnew.symm.trans hc)
      rw [halgorithm] at hgen
      exact ⟨text, htext, hgen⟩
    · intro hrefresh
      refine ⟨hsize, hverifies, fun fp hfp => ⟨_, hnew, ?_⟩⟩
      obtain ⟨text', htext', hgen⟩ := (hrefresh.fingerprint_eq rfl).resolve_left
        Bool.false_ne_true salt fp rfl (hold.trans hfp)
      obtain rfl := Except.ok.inj (htext'.symm.trans htext)
      rwa [halgorithm]

/-- **When a call that returns keeps size, hash and fingerprint those of the body.**

**Proof sketch.** The size is the new body's. A new hash is good for the new body, while the old
one, if it stays, has to be. A new fingerprint is that of the hash; an old one was that of the old
hash, and has to be that of a new one. -/
theorem Described.setBy_iff {c c' : Content} {call : SetBodyCall} (h : c.Described)
    (hdraw : ¬ DrawFails call.entropy call.generateHash) (hset : SetBy c c' call) :
    c'.Described ↔ c.Refreshes call := by
  obtain ⟨body, generateHash, generateFingerprint, entropy⟩ := call
  cases generateHash with
  | false => exact hset.described_iff_of_kept h
  | true => exact hset.described_iff_of_made hdraw

/-- **When a step keeps size, hash and fingerprint those of the body.** -/
theorem described_step_iff {c c' : Content} {call : SetBodyCall} (h : c.Described)
    (halgorithm : c.fingerprintAlgorithm ≠ .pbkdf2HmacSha1) (hstep : c.step call = some c') :
    c'.Described ↔ c.Refreshes call := by
  rcases step_cases halgorithm hstep with ⟨hdraw, rfl⟩ | ⟨hdraw, hset⟩
  · rw [described_of_drawFails h]
    constructor
    · intro hsize
      refine ⟨fun _ => hsize, .inl hdraw.1, fun _ => .inr fun salt _ hsalt => ?_⟩
      rw [hdraw.2] at hsalt
      cases hsalt
    · intro hrefresh
      exact hrefresh.size_eq hdraw
  · exact h.setBy_iff hdraw hset

/-! ## What a run does -/

/-- Content without body, hash and fingerprint has nothing stale. -/
lemma described_of_none {c : Content} (hbody : c.body = none) (hhash : c.hash = none)
    (hfingerprint : c.fingerprint = none) : c.Described := by
  refine ⟨fun body h => ?_, fun hash h => ?_, fun fp h => ?_⟩
  · rw [hbody] at h
    cases h
  · rw [hhash] at h
    cases h
  · rw [hfingerprint] at h
    cases h

/-- Content as it is created has nothing stale, and the algorithm of its fingerprints is SHA-1. -/
lemma Created.described {c : Content} (h : c.Created) :
    c.Described ∧ c.fingerprintAlgorithm = .sha1 := by
  rcases h with ⟨kind, contentType, rfl⟩ | ⟨d, body, contentType, label, name, gh, gf, h⟩
  · exact ⟨described_of_none rfl rfl rfl, rfl⟩
  · unfold build at h
    split at h
    · cases h
    · next kind _ =>
      obtain ⟨c', hset, h⟩ := Outcome.bind_eq_ok.mp h
      obtain rfl := Except.ok.inj h
      obtain ⟨_, hend, hset⟩ := Outcome.bind_eq_ok.mp hset
      obtain rfl := Except.ok.inj hset
      have hset := setBy_of_setBody hend
      have hdraw := not_drawFails d.salt gh
      have hc' := (Described.setBy_iff (described_of_none rfl rfl rfl) hdraw hset).mpr
        ⟨fun hfails => absurd hfails hdraw, .inr fun _ hash => (nomatch hash),
          fun _ => .inr fun _ _ _ hfp => (nomatch hfp)⟩
      exact ⟨⟨hc'.size_eq, hc'.hash_verifies, hc'.fingerprint_eq⟩, hset.algorithm_eq⟩

/-- A step leaves the algorithm of the fingerprints. -/
lemma algorithm_of_step {c c' : Content} {call : SetBodyCall} (h : c.fingerprintAlgorithm = .sha1)
    (hstep : c.step call = some c') : c'.fingerprintAlgorithm = .sha1 := by
  rcases step_cases (by rw [h]; decide) hstep with ⟨-, rfl⟩ | ⟨-, hset⟩
  · exact h
  · exact hset.algorithm_eq.trans h

/-- A run leaves the algorithm of the fingerprints. -/
lemma algorithm_of_exec {c₀ : Content} (h0 : c₀.fingerprintAlgorithm = .sha1) :
    ∀ calls c, Transition.exec step c₀ calls = some c → c.fingerprintAlgorithm = .sha1 :=
  Transition.exec_induction (I := fun _ c => c.fingerprintAlgorithm = .sha1) h0
    fun _ _ _ _ _ hs hstep => algorithm_of_step hs hstep

/-- The magnet link begins with the size of the body and the hash. -/
lemma magnetLink_of_hash {c : Content} {body : Bytes} {h : Hash} (hbody : c.body = some body)
    (hhash : c.hash = some h) : ∃ rest, c.magnetLink =
      some (str "magnet:?" ++
        (str "xl=" ++ toText body.length ++ str "&" ++ hashPart h ++ rest)) := by
  unfold magnetLink
  rw [hbody, hhash]
  by_cases hk : c.keywords = []
  · refine ⟨[], ?_⟩
    simp [hk, List.intercalate]
  · refine ⟨str "&" ++ (str "kt=" ++ (str "+").intercalate c.keywords), ?_⟩
    simp [hk, List.intercalate]

/-- **In which runs the metadata describe the body**: in a run of `SetBody` calls on created
content, of which some may throw, size, hash and fingerprint are those of the body in every state
exactly if every call leaves nothing stale behind. The magnet link is made of the size of the body
and this hash.

**Proof sketch.** Created content has nothing stale, and a step keeps it so exactly if it leaves
nothing stale behind (`described_step_iff`). That a fingerprint can be made is due to its algorithm,
which stays what it was (`algorithm_of_step`). -/
theorem body_described {c₀ : Content} (h0 : c₀.Created) {calls : List SetBodyCall} {c : Content}
    (h : Transition.exec step c₀ calls = some c) :
    ((∀ before, before <+: calls → ∀ t, Transition.exec step c₀ before = some t → t.Described) ↔
      Transition.Meets step Refreshes c₀ calls) ∧
    ∀ body hash, c.body = some body → c.hash = some hash → ∃ rest, c.magnetLink =
      some (str "magnet:?" ++ (str "xl=" ++ toText body.length ++ str "&" ++ hashPart hash ++
        rest)) := by
  refine ⟨?_, fun body hash => magnetLink_of_hash⟩
  have halgorithm := algorithm_of_exec h0.described.2
  rw [← Transition.invariant_iff_meets (I := fun t => t.Described ∧ t.fingerprintAlgorithm = .sha1)
    h0.described ?_ h]
  · constructor
    · intro hall before hbefore t ht
      exact ⟨hall before hbefore t ht, halgorithm before t ht⟩
    · intro hall before hbefore t ht
      exact (hall before hbefore t ht).1
  · intro s call t hs hstep
    rw [and_iff_left (algorithm_of_step hs.2 hstep)]
    exact described_step_iff hs.1 (by rw [hs.2]; decide) hstep

/-- Two calls that both make a hash, and between them one whose draw fails, with a body as long as
the one that stays. -/
def refreshedTwice : List SetBodyCall :=
  [⟨str "a", true, false, some ⟨List.replicate 16 1, rfl⟩⟩, ⟨str "c", true, false, none⟩,
    ⟨str "b", true, false, some ⟨List.replicate 16 2, rfl⟩⟩]

/-- `body_described` for `refreshedTwice` on new text. -/
theorem body_described_refreshedTwice :
    ∃ c, Transition.exec step { kind := .text, contentType := str "text/plain" } refreshedTwice =
      some c ∧ c.Described := by
  have hrun : (Transition.exec step { kind := .text, contentType := str "text/plain" }
      refreshedTwice).isSome = true := by
    decide +kernel
  obtain ⟨c, hc⟩ := Option.isSome_iff_exists.mp hrun
  have hcreated : Created { kind := .text, contentType := str "text/plain" } :=
    .inl ⟨.text, str "text/plain", rfl⟩
  refine ⟨c, hc, (body_described hcreated hc).1.mpr ?_ _ (List.prefix_refl _) c hc⟩
  refine ⟨⟨fun hfails => absurd hfails (not_drawFails _ _), .inl rfl,
    fun _ => .inr fun _ _ _ hfp => (nomatch hfp)⟩, fun t ht => ?_⟩
  have halgorithm := algorithm_of_step hcreated.described.2 ht
  obtain ⟨hfails, -⟩ | ⟨-, hset⟩ := step_cases (by decide) ht
  · exact absurd hfails (not_drawFails _ _)
  have hfingerprint : none = t.fingerprint := Except.ok.inj hset.fingerprint_eq
  refine ⟨⟨fun _ body hbody => ?_, .inl rfl, fun _ => .inr fun _ _ hsalt => (nomatch hsalt)⟩,
    fun u hu => ⟨⟨fun hfails => absurd hfails (not_drawFails _ _), .inl rfl, fun _ => .inr ?_⟩,
      fun _ _ => trivial⟩⟩
  · obtain rfl := Option.some.inj (hset.body_eq.symm.trans hbody)
    rfl
  · rintro _ fp - hfp
    obtain ⟨-, rfl⟩ | ⟨hdraw, -⟩ := step_cases (by rw [halgorithm]; decide) hu
    · cases hfingerprint.trans hfp
    · exact absurd ⟨rfl, rfl⟩ hdraw

/-- A hash that is not made again is not good for another body: new text gets the body `a` and its
hash, then the body `b` without one. -/
theorem stale_hash_stays :
    ¬ ∀ c₀ : Content, c₀.Created → ∀ calls c, Transition.exec step c₀ calls = some c →
      c.Described := by
  intro hall
  let c₀ : Content := { kind := .text, contentType := str "text/plain" }
  let calls : List SetBodyCall :=
    [⟨str "a", true, false, some ⟨List.replicate 16 1, rfl⟩⟩, ⟨str "b", false, false, none⟩]
  have hbad : (Transition.exec step c₀ calls).bind (fun c => c.hash.map fun h =>
      (c.body, verifyHash (str "b") h.hashValue h.algorithm)) =
        some (some (str "b"), .ok false) := by
    decide +kernel
  obtain ⟨c, hc, hbad⟩ := Option.bind_eq_some_iff.mp hbad
  obtain ⟨hash, hhash, hbad⟩ := Option.map_eq_some_iff.mp hbad
  rw [Prod.mk.injEq] at hbad
  have hdescribed := hall c₀ (.inl ⟨_, _, rfl⟩) calls c hc
  obtain ⟨body, hbody, hgood⟩ := hdescribed.hash_verifies hash hhash
  obtain rfl := Option.some.inj (hbad.1.symm.trans hbody)
  rw [hbad.2] at hgood
  exact absurd hgood (by decide)

/-! ## Calls that fail -/

/-- The call returns, or it throws and leaves the content as it is. -/
def Atomic (c : Content) (r : Content × Outcome Unit) : Prop :=
  r.2 = .ok () ∨ ∃ e, e ≠ .undefinedBehavior ∧ r.2 = .error e ∧ r.1 = c

/-- The fingerprint of a hash is asked for, and its algorithm is no digest. -/
def DigestFails (c : Content) (generateHash generateFingerprint : Bool) : Prop :=
  generateFingerprint = true ∧ (generateHash = true ∨ c.hash ≠ none) ∧
    c.fingerprintAlgorithm = .pbkdf2HmacSha1

/-- **When a call of `SetBody` is atomic.** Where a step fails, what is written before it is there
already: the size, and a hash that was asked for. Where none does, the version can still be
increased. -/
structure SetsWhole (entropy : Option Salt) (c : Content) (body : Bytes)
    (generateHash generateFingerprint : Bool) : Prop where
  size_eq : DrawFails entropy generateHash ∨ DigestFails c generateHash generateFingerprint →
    c.size = UInt64.ofNat body.length
  hash_eq : DigestFails c generateHash generateFingerprint → ∀ salt, entropy = some salt →
    generateHash = true → ∃ h, c.hash = some h ∧ h.algorithm = c.hashAlgorithm ∧
      HashUtil.generateHash salt body c.hashAlgorithm = .ok h.hashValue
  version_lt : ¬ DrawFails entropy generateHash → ¬ DigestFails c generateHash generateFingerprint →
    c.version.toInt + 1 < 2 ^ 31

/-- Overwriting size and hash changes nothing exactly when they are there already. -/
lemma overwrite_eq_iff {c : Content} {size : UInt64} {hash : Option Hash} :
    { c with size, hash } = c ↔ c.size = size ∧ c.hash = hash := by
  constructor
  · intro h
    exact ⟨(congrArg Content.size h).symm, (congrArg Content.hash h).symm⟩
  · rintro ⟨rfl, rfl⟩
    cases c
    rfl

/-- When the hash made is the present one. -/
lemma newHash_eq_iff {entropy : Option Salt} {generateHash : Bool}
    (h : ¬ DrawFails entropy generateHash) (c : Content) (body : Bytes) :
    newHash entropy c body generateHash = .ok c.hash ↔ ∀ salt, entropy = some salt →
      generateHash = true → ∃ h, c.hash = some h ∧ h.algorithm = c.hashAlgorithm ∧
        HashUtil.generateHash salt body c.hashAlgorithm = .ok h.hashValue := by
  cases generateHash with
  | false => simp [newHash]
  | true =>
    cases entropy with
    | none => exact absurd ⟨rfl, rfl⟩ h
    | some salt =>
      obtain ⟨text, htext, hnew⟩ := newHash_some salt c body
      simp only [hnew, htext, Except.ok.injEq, Option.some.injEq, forall_eq', forall_const]
      constructor
      · intro heq
        exact ⟨_, heq.symm, rfl, rfl⟩
      · rintro ⟨⟨value, algorithm⟩, hhash, rfl, rfl⟩
        exact hhash.symm

/-- What a call leaves when there is no fingerprint: the new size and the hash. -/
lemma setBody_of_digestFails {entropy : Option Salt} {c : Content} {body : Bytes}
    {generateHash generateFingerprint : Bool} {hash : Option Hash}
    (hhash : newHash entropy c body generateHash = .ok hash) (hne : hash ≠ none)
    (h : DigestFails c generateHash generateFingerprint) :
    c.setBody entropy body generateHash generateFingerprint =
      ({ c with size := UInt64.ofNat body.length, hash },
        .error (.crypto (str "PBKDF2 is not a plain digest"))) := by
  obtain ⟨new, rfl⟩ := Option.ne_none_iff_exists'.mp hne
  obtain ⟨rfl, -, halgorithm⟩ := h
  have hfingerprint : newFingerprint { c with size := UInt64.ofNat body.length, hash := some new }
      (some new) true = .error (.crypto (str "PBKDF2 is not a plain digest")) := by
    simp only [newFingerprint, halgorithm, generateFingerprint_pbkdf2, Outcome.error_bind]
  have hhash' : newHash entropy { c with size := UInt64.ofNat body.length } body generateHash =
      .ok (some new) := hhash
  simp only [setBody, hhash', hfingerprint]

/-- A call that throws is atomic when it leaves the content as it is. -/
lemma atomic_crypto_iff {c r : Content} {message : Str} :
    Atomic c (r, .error (.crypto message)) ↔ r = c := by
  simp [Atomic, Fault.crypto]

/-- A call in which no step throws is atomic when the version can be increased. -/
lemma atomic_version_iff {c : Content} {r : Content × Outcome Unit}
    (h : r.2 = (checkInt (c.version.toInt + 1)).map fun _ => ()) :
    Atomic c r ↔ c.version.toInt + 1 < 2 ^ 31 := by
  have hlow := c.version.le_toInt
  constructor
  · intro hatomic
    by_contra hover
    have hcheck : checkInt (c.version.toInt + 1) = .error .undefinedBehavior :=
      if_neg fun hrange => hover hrange.2
    rw [hcheck] at h
    rcases hatomic with hok | ⟨e, hne, herror, -⟩
    · rw [h] at hok
      cases hok
    · rw [h] at herror
      exact hne (Except.error.inj herror).symm
  · intro hlt
    rw [checkInt_eq_ok ⟨by omega, hlt⟩] at h
    exact .inl h

/-- **Exactly when `SetBody` is atomic**: it returns, or throws and leaves the content as it is.

**Proof sketch.** The steps that can throw are the draw of the salt and the digest of the
fingerprint. The first leaves the new size (`setBody_of_drawFails`), the second the size and the
hash (`setBody_of_digestFails`), and what they overwrite stays the same where it had this value
(`overwrite_eq_iff`). Otherwise the call ends as the increase of the version does
(`setBody_snd`, `atomic_version_iff`). -/
theorem setBody_atomic_iff (entropy : Option Salt) (c : Content) (body : Bytes)
    (generateHash generateFingerprint : Bool) :
    Atomic c (c.setBody entropy body generateHash generateFingerprint) ↔
      SetsWhole entropy c body generateHash generateFingerprint := by
  by_cases hdraw : DrawFails entropy generateHash
  · have hoverwrite : { c with size := UInt64.ofNat body.length } = c ↔
        c.size = UInt64.ofNat body.length ∧ c.hash = c.hash := overwrite_eq_iff
    rw [setBody_of_drawFails hdraw, atomic_crypto_iff, hoverwrite, and_iff_left rfl]
    constructor
    · intro hsize
      refine ⟨fun _ => hsize, fun _ salt hsalt => ?_, fun hnot => absurd hdraw hnot⟩
      rw [hdraw.2] at hsalt
      cases hsalt
    · intro h
      exact h.size_eq (.inl hdraw)
  · obtain ⟨hash, hhash, hsome⟩ := newHash_total hdraw c body
    by_cases hdigest : DigestFails c generateHash generateFingerprint
    · have hkept : c.hash = hash ↔ newHash entropy c body generateHash = .ok c.hash := by
        rw [hhash, Except.ok.injEq, eq_comm]
      rw [setBody_of_digestFails hhash (hsome.mpr hdigest.2.1) hdigest, atomic_crypto_iff,
        overwrite_eq_iff, hkept, newHash_eq_iff hdraw]
      constructor
      · rintro ⟨hsize, hsame⟩
        exact ⟨fun _ => hsize, fun _ => hsame, fun _ hnot => absurd hdigest hnot⟩
      · intro h
        exact ⟨h.size_eq (.inr hdigest), h.hash_eq hdigest⟩
    · have hdigest' : generateFingerprint = true → hash ≠ none →
          c.fingerprintAlgorithm ≠ .pbkdf2HmacSha1 := by
        intro hgen hne halgorithm
        exact hdigest ⟨hgen, hsome.mp hne, halgorithm⟩
      obtain ⟨fingerprint, hfingerprint⟩ := newFingerprint_total hdigest'
      rw [atomic_version_iff (setBody_snd hhash hfingerprint)]
      constructor
      · intro hlt
        exact ⟨fun hfail => absurd hfail (not_or.mpr ⟨hdraw, hdigest⟩),
          fun hfail => absurd hfail hdigest, fun _ _ => hlt⟩
      · intro h
        exact h.version_lt hdraw hdigest

/-- A fingerprint that is not made leaves the size of a body that is not there: text with the body
`a` gets the body `bc` and a fingerprint of the algorithm PBKDF2. -/
theorem setBody_not_atomic :
    ¬ ∀ (entropy : Option Salt) (c : Content) (body : Bytes)
      (generateHash generateFingerprint : Bool),
      Atomic c (c.setBody entropy body generateHash generateFingerprint) := by
  intro hall
  let c : Content :=
    { kind := .text, contentType := str "text/plain", version := 1, size := 1,
      body := some (str "a"), hash := some ⟨str "h", .sha256⟩,
      fingerprintAlgorithm := .pbkdf2HmacSha1 }
  rcases hall none c (str "bc") false true with hok | ⟨e, -, -, hsame⟩
  · have hend : (c.setBody none (str "bc") false true).2 =
        .error (.crypto (str "PBKDF2 is not a plain digest")) := rfl
    rw [hend] at hok
    cases hok
  · have hsize := congrArg Content.size hsame
    exact absurd hsize (by decide)

end Content

end RaCommon
