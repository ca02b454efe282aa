import ArcReel.Manifest.Text
import ArcReel.Lib.Except

/-! Artifact keys and their wire representation. -/

namespace ArcReel.Manifest
open Lib

inductive ArtifactKind where
  | assetSheet
  | episodeStep1
  | episodeScript
  | episodeGrid
  | episodeStoryboard
  | episodeVideo
  | episodeAudio
  | episodeSubtitle
  | episodePresentation
  deriving DecidableEq

/-- What the components of a kind are. -/
inductive KeyShape where
  | sheet
  | episode
  | resource
  | rendition
  deriving DecidableEq

namespace ArtifactKind

def all : List ArtifactKind :=
  [assetSheet, episodeStep1, episodeScript, episodeGrid, episodeStoryboard, episodeVideo,
    episodeAudio, episodeSubtitle, episodePresentation]

def value : ArtifactKind → Str
  | assetSheet => text "asset-sheet"
  | episodeStep1 => text "episode-step1"
  | episodeScript => text "episode-script"
  | episodeGrid => text "episode-grid"
  | episodeStoryboard => text "episode-storyboard"
  | episodeVideo => text "episode-video"
  | episodeAudio => text "episode-audio"
  | episodeSubtitle => text "episode-subtitle"
  | episodePresentation => text "episode-presentation"

def ofValue (value : Str) : Option ArtifactKind := all.find? fun kind => kind.value = value

def shape : ArtifactKind → KeyShape
  | assetSheet => .sheet
  | episodeStep1 | episodeScript => .episode
  | episodeGrid | episodeStoryboard | episodeVideo | episodeAudio => .resource
  | episodeSubtitle | episodePresentation => .rendition

theorem ofValue_value (kind : ArtifactKind) : ofValue kind.value = some kind := by
  cases kind <;> decide

theorem value_of_ofValue {value : Str} {kind : ArtifactKind} (found : ofValue value = some kind) :
    kind.value = value := by
  simpa using List.find?_some found

theorem value_scalar (kind : ArtifactKind) : kind.value.all isScalar = true := by
  cases kind <;> decide

end ArtifactKind

inductive PyError where
  | valueError
  | typeError
  | manifestError
  deriving DecidableEq

/-- A component of a key that is one. -/
inductive KeyPart where
  | text (value : Str)
  | number (value : Int)
  deriving DecidableEq

def KeyPart.value : KeyPart → Value
  | .text value => .str value
  | .number value => .int value

section Components

variable (p : Primitives)

def assetTypes : List Str := [text "character", text "scene", text "prop", text "product"]

/-- `asset_name_comparison_key`. -/
def comparisonKey (name : Str) : Str := p.nfc (strip name)

/-- `variant in {"post_production", "use_tts"}`; a list or an object has no hash. -/
def isVariant : Value → Except PyError Bool
  | .str value => .ok (value = text "post_production" || value = text "use_tts")
  | .arr _ | .obj _ => .error .typeError
  | _ => .ok false

/-- `ArtifactKey.__post_init__`: the components it leaves. -/
def postInit (kind : ArtifactKind) (components : List Value) : Except PyError (List KeyPart) :=
  match kind.shape, components with
  | .sheet, [.str assetType, .str assetId] =>
    if assetType ∈ assetTypes ∧ comparisonKey p assetId ≠ [] then
      .ok [.text assetType, .text (comparisonKey p assetId)]
    else .error .valueError
  | .episode, [.int episode] =>
    if 0 < episode then .ok [.number episode] else .error .valueError
  | .resource, [.int episode, .str resourceId] =>
    if 0 < episode ∧ resourceId ≠ [] then .ok [.number episode, .text resourceId]
    else .error .valueError
  | .rendition, [.int episode, .str resourceId, variant] =>
    if 0 < episode ∧ resourceId ≠ [] then
      match isVariant variant, variant with
      | .ok true, .str variant => .ok [.number episode, .text resourceId, .text variant]
      | .ok _, _ => .error .valueError
      | .error e, _ => .error e
    else .error .valueError
  | _, _ => .error .valueError

variable {p}

theorem comparisonKey_comparisonKey (name : Str) :
    comparisonKey p (comparisonKey p name) = comparisonKey p name := by
  rw [comparisonKey, comparisonKey, p.strip_nfc, strip, strip, trim_trim, p.nfc_nfc]

/-- What a construction leaves, it leaves as it is. -/
theorem postInit_canonical {kind : ArtifactKind} {components : List Value} {parts : List KeyPart}
    (built : postInit p kind components = .ok parts) :
    postInit p kind (parts.map KeyPart.value) = .ok parts := by
  unfold postInit at built
  split at built
  · next shape =>
    split at built
    · next named =>
      cases built
      simp only [postInit, shape, List.map_cons, List.map_nil, KeyPart.value,
        comparisonKey_comparisonKey, named, ne_eq, not_false_eq_true, and_self, if_true]
    · cases built
  · next shape =>
    split at built
    · next positive =>
      cases built
      simp only [postInit, shape, List.map_cons, List.map_nil, KeyPart.value, positive, if_true]
    · cases built
  · next shape =>
    split at built
    · next named =>
      cases built
      simp only [postInit, shape, List.map_cons, List.map_nil, KeyPart.value, named, ne_eq,
        not_false_eq_true, and_self, if_true]
    · cases built
  · next shape =>
    split at built
    · next named =>
      split at built
      · next known =>
        cases built
        simp only [postInit, shape, List.map_cons, List.map_nil, KeyPart.value, named, ne_eq,
          not_false_eq_true, and_self, if_true, known]
      · cases built
      · cases built
    · cases built
  · cases built

/-- A component without a hash, where a rendition has its variant. -/
def Unhashable (kind : ArtifactKind) (components : List Value) : Prop :=
  kind.shape = .rendition ∧ ∃ episode resourceId variant,
    components = [.int episode, .str resourceId, variant] ∧ 0 < episode ∧ resourceId ≠ [] ∧
      ((∃ items, variant = .arr items) ∨ ∃ fields, variant = .obj fields)

theorem isVariant_error {variant : Value} {e : PyError} :
    isVariant variant = .error e ↔
      e = .typeError ∧ ((∃ items, variant = .arr items) ∨ ∃ fields, variant = .obj fields) := by
  cases variant <;> simp [isVariant, eq_comm]

theorem postInit_typeError_iff {kind : ArtifactKind} {components : List Value} {e : PyError} :
    (postInit p kind components = .error e ∧ e ≠ .valueError) ↔
      e = .typeError ∧ Unhashable kind components := by
  constructor
  · rintro ⟨failed, other⟩
    unfold postInit at failed
    split at failed
    · split at failed
      · cases failed
      · exact absurd (Except.error.inj failed).symm other
    · split at failed
      · cases failed
      · exact absurd (Except.error.inj failed).symm other
    · split at failed
      · cases failed
      · exact absurd (Except.error.inj failed).symm other
    · next episode resourceId _ shape =>
      split at failed
      · next named =>
        split at failed
        · cases failed
        · exact absurd (Except.error.inj failed).symm other
        · next raised =>
          rw [Except.error.inj failed] at raised
          obtain ⟨rfl, unhashable⟩ := isVariant_error.mp raised
          exact ⟨rfl, shape, episode, resourceId, _, rfl, named.1, named.2, unhashable⟩
      · exact absurd (Except.error.inj failed).symm other
    · exact absurd (Except.error.inj failed).symm other
  · rintro ⟨rfl, shape, episode, resourceId, variant, rfl, positive, filled, unhashable⟩
    have raised := isVariant_error.mpr ⟨rfl, unhashable⟩
    simp [postInit, shape, positive, filled, raised]

end Components

/-- `ArtifactKey`: a kind with components that construction leaves as they are. -/
structure ArtifactKey (p : Primitives) where
  kind : ArtifactKind
  components : List KeyPart
  canonical : postInit p kind (components.map KeyPart.value) = .ok components
  deriving DecidableEq

namespace ArtifactKey

variable {p : Primitives}

theorem eq_of_parts {key other : ArtifactKey p} (kinds : key.kind = other.kind)
    (parts : key.components = other.components) : key = other := by
  cases key
  cases other
  cases kinds
  cases parts
  rfl

def make (kind : ArtifactKind) (components : List Value) : Except PyError (ArtifactKey p) :=
  match built : postInit p kind components with
  | .ok parts => .ok ⟨kind, parts, postInit_canonical built⟩
  | .error e => .error e

theorem make_eq_ok_iff {kind : ArtifactKind} {components : List Value} {key : ArtifactKey p} :
    make kind components = .ok key ↔
      postInit p kind components = .ok key.components ∧ key.kind = kind := by
  unfold make
  split
  · next parts built =>
    constructor
    · intro same
      cases Except.ok.inj same
      exact ⟨built, rfl⟩
    · rintro ⟨again, kinds⟩
      refine congrArg Except.ok (eq_of_parts kinds.symm ?_)
      exact Except.ok.inj (built.symm.trans again)
  · next failed => simp [failed]

theorem make_eq_error_iff {kind : ArtifactKind} {components : List Value} {e : PyError} :
    (make kind components : Except PyError (ArtifactKey p)) = .error e ↔
      postInit p kind components = .error e := by
  unfold make
  split
  · next built => simp [built]
  · next failed => simp [failed]

/-- `[self.kind.value, *self.components]`. -/
def payload (key : ArtifactKey p) : Value :=
  .arr (.str key.kind.value :: key.components.map KeyPart.value)

def keyPrefix : Str := text "artifact-key-v1:"

def wire (key : ArtifactKey p) : Str := keyPrefix ++ p.token key.payload

def encode (key : ArtifactKey p) : Except PyError Str :=
  if key.payload.writable then .ok key.wire else .error .valueError

def decode (p : Primitives) (value : Str) : Except PyError (ArtifactKey p) :=
  if keyPrefix.isPrefixOf value then
    match p.untoken (value.drop keyPrefix.length) with
    | some (.arr (.str kind :: parts)) =>
      match ArtifactKind.ofValue kind with
      | none => .error .valueError
      | some kind =>
        match (make kind parts : Except PyError (ArtifactKey p)) with
        | .error e => .error e
        | .ok key =>
          match key.encode with
          | .ok encoded => if encoded = value then .ok key else .error .valueError
          | .error e => .error e
    | _ => .error .valueError
  else .error .valueError

/-- UTF-8 has every text of the key, and the decimal limit its number. -/
def Encodable (key : ArtifactKey p) : Prop :=
  ∀ part ∈ key.components, part.value.writable = true

theorem payload_writable (key : ArtifactKey p) : key.payload.writable = true ↔ key.Encodable := by
  rw [payload, Value.writable, writableItems, Bool.and_eq_true, writableItems_iff, Value.writable]
  simp [key.kind.value_scalar, Encodable]

theorem encode_eq_ok_iff {key : ArtifactKey p} {value : Str} :
    key.encode = .ok value ↔ key.Encodable ∧ value = key.wire := by
  rw [encode, ← payload_writable]
  by_cases fine : key.payload.writable = true
  · simp [fine, eq_comm]
  · simp [fine]

theorem encode_eq_error_iff {key : ArtifactKey p} {e : PyError} :
    key.encode = .error e ↔ ¬key.Encodable ∧ e = .valueError := by
  rw [encode, ← payload_writable]
  by_cases fine : key.payload.writable = true
  · simp [fine]
  · simp [fine, eq_comm]

theorem wire_scalar {key : ArtifactKey p} (encodable : key.Encodable) :
    key.wire.all isScalar = true := by
  rw [wire, List.all_append, p.token_scalar _ (key.payload_writable.mpr encodable)]
  decide

theorem make_payload (key : ArtifactKey p) :
    (make key.kind (key.components.map KeyPart.value) : Except PyError (ArtifactKey p)) = .ok key :=
  make_eq_ok_iff.mpr ⟨key.canonical, rfl⟩

/-- Decoding an encoded key gives the key. -/
theorem decode_encode {key : ArtifactKey p} {value : Str} (encoded : key.encode = .ok value) :
    decode p value = .ok key := by
  obtain ⟨encodable, whole⟩ := encode_eq_ok_iff.mp encoded
  have starts : keyPrefix.isPrefixOf value = true := by
    rw [whole, List.isPrefixOf_iff_prefix, wire]
    exact List.prefix_append _ _
  have token : p.untoken (value.drop keyPrefix.length) = some key.payload := by
    rw [whole, wire, List.drop_left]
    exact p.untoken_token _ (key.payload_writable.mpr encodable)
  rw [decode, if_pos starts, token]
  simp only [payload, ArtifactKind.ofValue_value, make_payload, encoded, if_true]

theorem encode_injective {key other : ArtifactKey p} {value : Str} (encoded : key.encode = .ok value)
    (same : other.encode = .ok value) : key = other :=
  Except.ok.inj ((decode_encode encoded).symm.trans (decode_encode same))

theorem wire_injective {key other : ArtifactKey p} (encodable : key.Encodable)
    (encodable' : other.Encodable) (same : key.wire = other.wire) : key = other :=
  encode_injective (encode_eq_ok_iff.mpr ⟨encodable, rfl⟩) (encode_eq_ok_iff.mpr ⟨encodable', same⟩)

/-- What a text decodes to. -/
theorem decode_eq_ok_iff {value : Str} {key : ArtifactKey p} :
    decode p value = .ok key ↔ key.encode = .ok value := by
  constructor
  · intro decoded
    rw [decode] at decoded
    split at decoded
    · split at decoded
      · split at decoded
        · cases decoded
        · split at decoded
          · cases decoded
          · next built =>
            split at decoded
            · next encoded =>
              split at decoded
              · next same =>
                rw [← Except.ok.inj decoded, encoded, same]
              · cases decoded
            · cases decoded
      · cases decoded
    · cases decoded
  · exact decode_encode

/-- The token of `value` holds a rendition whose variant has no hash. -/
def HashesVariant (p : Primitives) (value : Str) : Prop :=
  keyPrefix <+: value ∧ ∃ kind parts,
    p.untoken (value.drop keyPrefix.length) = some (.arr (.str kind.value :: parts)) ∧
      Unhashable kind parts

theorem decode_error_iff {value : Str} {e : PyError} :
    (decode p value = .error e ∧ e ≠ .valueError) ↔ e = .typeError ∧ HashesVariant p value := by
  constructor
  · rintro ⟨failed, other⟩
    rw [decode] at failed
    split at failed
    · next starts =>
      split at failed
      · next kind parts token =>
        split at failed
        · exact absurd (Except.error.inj failed).symm other
        · next known =>
          split at failed
          · next raised =>
            rw [Except.error.inj failed] at raised
            obtain ⟨rfl, unhashable⟩ := postInit_typeError_iff.mp ⟨make_eq_error_iff.mp raised, other⟩
            refine ⟨rfl, List.isPrefixOf_iff_prefix.mp starts, _, parts, ?_, unhashable⟩
            rw [token, ArtifactKind.value_of_ofValue known]
          · split at failed
            · split at failed
              · cases failed
              · exact absurd (Except.error.inj failed).symm other
            · next raised =>
              rw [Except.error.inj failed] at raised
              exact absurd (encode_eq_error_iff.mp raised).2 other
      · exact absurd (Except.error.inj failed).symm other
    · exact absurd (Except.error.inj failed).symm other
  · rintro ⟨rfl, starts, kind, parts, token, unhashable⟩
    have raised := (postInit_typeError_iff (p := p)).mpr ⟨rfl, unhashable⟩
    refine ⟨?_, raised.2⟩
    rw [decode, if_pos (List.isPrefixOf_iff_prefix.mpr starts), token]
    simp only [ArtifactKind.ofValue_value, make_eq_error_iff.mpr raised.1]

/-- Decoding gives a key of that encoding or raises a `ValueError`. -/
def Decodes (p : Primitives) (value : Str) : Prop :=
  (∃ key, decode p value = .ok key ∧ key.encode = .ok value) ∨ decode p value = .error .valueError

theorem decodes_iff (value : Str) : Decodes p value ↔ ¬HashesVariant p value := by
  constructor
  · intro decodes hashes
    have raised := (decode_error_iff.mpr ⟨rfl, hashes⟩).1
    rcases decodes with ⟨key, decoded, -⟩ | failed
    · rw [raised] at decoded
      cases decoded
    · rw [raised] at failed
      cases failed
  · intro hashable
    cases result : decode p value with
    | ok key => exact Or.inl ⟨key, result, decode_eq_ok_iff.mp result⟩
    | error e =>
      right
      rw [result]
      by_contra other
      refine hashable (decode_error_iff.mp ⟨result, ?_⟩).2
      rintro rfl
      exact other rfl

theorem round_trip_iff (key : ArtifactKey p) :
    (key.encode >>= decode p) = .ok key ↔ key.Encodable := by
  constructor
  · intro returned
    obtain ⟨value, encoded, -⟩ := bind_eq_ok.mp returned
    exact (encode_eq_ok_iff.mp encoded).1
  · intro encodable
    exact bind_eq_ok.mpr ⟨_, encode_eq_ok_iff.mpr ⟨encodable, rfl⟩,
      decode_encode (encode_eq_ok_iff.mpr ⟨encodable, rfl⟩)⟩

end ArtifactKey

end ArcReel.Manifest
