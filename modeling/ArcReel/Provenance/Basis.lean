import ArcReel.Lib.JsonCanonical
import ArcReel.Prompt.Render
import ArcReel.Speech.Subtitles

/-! The visual and the spoken evidence of a reference video: the bases that tell whether a paid video
is still current. -/

namespace ArcReel.Provenance
open Lib PyText Mention Prompt Speech

abbrev Bytes := List UInt8

inductive BasisError where
  | valueError (message : String)
  | duplicateVoice (speaker : List Char)
  | fileNotFound (path : String)
  deriving DecidableEq, Repr

/-- What a basis is made with: SHA-256, how a float is written, and the files. -/
structure World where
  sha256 : Bytes → String
  floatText : Option ℚ → List Char
  fileAt : String → Option Bytes

def utf8 (text : List Char) : Bytes := (String.ofList text).toByteArray.data.toList

def textJson (text : List Char) : Json := .str (String.ofList text)

structure ArtifactBasis where
  kind : String
  kindVersion : Nat
  normalized : Bytes
  digest : String
  deriving DecidableEq, Repr

/-- The canonical payload of a basis. -/
def payload (kind : String) (kindVersion : Nat) (inputs : Json) : Json :=
  .obj [("inputs", inputs), ("kind", .str kind), ("kind_version", .int kindVersion)]

/-- `ArtifactBasis.build` of inputs that are JSON. -/
def ArtifactBasis.build (w : World) (kind : String) (kindVersion : Nat) (inputs : Json) : ArtifactBasis :=
  let normalized := utf8 (Json.canonical w.floatText (payload kind kindVersion inputs))
  ⟨kind, kindVersion, normalized, "sha256-v1:" ++ w.sha256 normalized⟩

def requireNonEmpty (field : String) : Json → Except BasisError String
  | .str value =>
    if value = "" then throw (.valueError (field ++ " must be a non-empty string")) else pure value
  | _ => throw (.valueError (field ++ " must be a non-empty string"))

def visualFileDigest (w : World) (path : String) : Except BasisError String :=
  match w.fileAt path with
  | some bytes => pure (w.sha256 bytes)
  | none => throw (.fileNotFound path)

def mediaContentDigest (w : World) (path : String) : Except BasisError String :=
  (visualFileDigest w path).map ("sha256-v1:" ++ ·)

section Visual

variable (u : Unicode)

/-- An image that was sent, with its logical identity. -/
structure VisualReference where
  path : String
  role : String
  logicalType : String
  logicalId : List Char
  kind : String
  deriving DecidableEq, Repr

/-- The reference that a sent asset stands for. -/
def visualReference (asset : Asset) : Except BasisError VisualReference :=
  if asset.reference.name.isEmpty then
    throw (.valueError "visual reference logical_id must be a non-empty string")
  else
    pure ⟨asset.path, "reference_image", asset.reference.type.label, u.nfc asset.reference.name,
      match asset.kind with
      | .sheet => "sheet"
      | .original => "original"
      | .single => "asset"⟩

def VisualReference.evidence (w : World) (reference : VisualReference) : Except BasisError Json :=
  (visualFileDigest w reference.path).map fun digest =>
    .obj [("role", .str reference.role), ("sha256", .str digest),
      ("logical_identity", .obj [("type", .str reference.logicalType),
        ("id", textJson reference.logicalId)]),
      ("kind", .str reference.kind)]

/-- The lines of a shot's text that are neither blank nor spoken, without header and outer whitespace. -/
def referenceVisualLines (text : List Char) : List (List Char) :=
  (splitlines text).filterMap fun raw =>
    let line := strip (stripShotHeader u raw)
    if line.isEmpty then none
    else if (matchDialogueLine u line).isSome || (matchVoiceoverLine u line).isSome then none
    else some line

/-- The visual lines of the shots from a place on; a shot without any is left out. -/
def visualShots : Nat → List Json → Except BasisError (List (List (List Char)))
  | _, [] => pure []
  | index, shot :: shots =>
    if !shot.isObj then throw (.valueError ("unit.shots[" ++ toString index ++ "] must be an object"))
    else match shot.get "text" with
      | .str text => do
        let later ← visualShots (index + 1) shots
        let lines := referenceVisualLines u text.toList
        pure (if lines.isEmpty then later else lines :: later)
      | _ => throw (.valueError ("unit.shots[" ++ toString index ++ "].text must be a string"))

def visualShotJson (shot : List (List Char) × Nat) : Json :=
  .obj [("shot_index", .int shot.2), ("lines", .arr (shot.1.map textJson))]

def visualInputs (unitId : String) (shots : List (List (List Char))) (style : List Char)
    (aspectRatio : String) (references : List Json) : Json :=
  .obj [("unit_id", .str unitId), ("visual_shots", .arr (shots.zipIdx.map visualShotJson)),
    ("style", textJson style), ("canvas", .obj [("aspect_ratio", .str aspectRatio)]),
    ("request_references", .arr references)]

def buildReferenceVideoArtifactVisualBasis (w : World) (unit : Json) (requestAssets : List Asset)
    (style : Option (List Char)) (aspectRatio : String) : Except BasisError ArtifactBasis := do
  let unitId ← requireNonEmpty "unit.unit_id" (unit.get "unit_id")
  let shots ← match unit.get "shots" with
    | .arr shots => visualShots u 0 shots
    | _ => throw (.valueError "unit.shots must be an array")
  let references ← requestAssets.mapM (visualReference u)
  let aspectRatio ← requireNonEmpty "aspect_ratio" (.str aspectRatio)
  let evidence ← references.mapM (VisualReference.evidence w)
  pure (ArtifactBasis.build w "artifact-visual/video-reference" 1
    (visualInputs unitId shots (normalizeStyle style) aspectRatio evidence))

end Visual

section Spoken

variable (u : Unicode)

/-- The voice of a speaking character, canonically spelled. -/
structure CharacterVoiceEvidence where
  speaker : List Char
  voiceStyle : List Char
  referenceAudio : Option String
  named : ∃ name, isBlank name = false ∧ speaker = assetNameComparisonKey u name
  styled : ∃ style, voiceStyle = canonicalText u style

def modeValue : SpeechMode → String
  | .characterSpeech => "character_speech"
  | .narratorVoiceover => "narrator_voiceover"
  | .silent => "silent"

/-- `_require_prepared_speech`. -/
def requirePreparedSpeech (preparation : SpeechPreparation) : Except BasisError SpeechMode :=
  match preparation.problems, preparation.mode with
  | [], some mode => pure mode
  | _, _ => throw (.valueError "cannot build artifact basis from blocked speech preparation")

variable {u}

/-- The voices by speaker. -/
def voiceProfiles : List (CharacterVoiceEvidence u) → List (CharacterVoiceEvidence u) →
    Except BasisError (List (CharacterVoiceEvidence u))
  | profiles, [] => pure profiles
  | profiles, voice :: voices =>
    if profiles.any fun profile => profile.speaker = voice.speaker then throw (.duplicateVoice voice.speaker)
    else voiceProfiles (profiles ++ [voice]) voices

def CharacterVoiceEvidence.basisInput (w : World) (voice : CharacterVoiceEvidence u) :
    Except BasisError Json := do
  let audio ← match voice.referenceAudio with
    | some path => (mediaContentDigest w path).map Json.str
    | none => pure .null
  pure (.obj [("speaker", textJson voice.speaker), ("voice_style", textJson voice.voiceStyle),
    ("reference_audio_digest", audio)])

def voiceInput (w : World) (profiles : List (CharacterVoiceEvidence u)) (speaker : List Char) :
    Except BasisError Json :=
  match profiles.find? fun profile => profile.speaker = speaker with
  | some voice => voice.basisInput w
  | none => pure (.obj [("speaker", textJson speaker), ("voice_style", .str ""),
      ("reference_audio_digest", .null)])

variable (u)

/-- The speaker and the text of an utterance of a character. -/
def spokenEvidence (utterance : SpeechUtterance) : Except BasisError (List Char × List Char) :=
  if utterance.owner ≠ .character then
    throw (.valueError "character speech preparation contains a non-character utterance")
  else
    let speaker := assetNameComparisonKey u (utterance.speaker.getD [])
    let text := canonicalText u utterance.text
    if speaker.isEmpty || text.isEmpty then
      throw (.valueError "character speech basis requires non-empty speaker and text")
    else pure (speaker, text)

def buildVideoSpeechBasis (w : World) (preparation : SpeechPreparation)
    (voices : List (CharacterVoiceEvidence u)) : Except BasisError ArtifactBasis := do
  let mode ← requirePreparedSpeech preparation
  let profiles ← voiceProfiles [] voices
  if mode ≠ .characterSpeech then
    pure (ArtifactBasis.build w "artifact-speech/video" 1 (.obj [("mode", .str (modeValue mode))]))
  else
    let utterances ← preparation.utterances.mapM (spokenEvidence u)
    let voices ← (firstSeen (utterances.map Prod.fst)).mapM (voiceInput w profiles)
    pure (ArtifactBasis.build w "artifact-speech/video" 1
      (.obj [("mode", .str (modeValue mode)),
        ("utterances", .arr (utterances.map fun utterance =>
          .obj [("speaker", textJson utterance.1), ("text", textJson utterance.2)])),
        ("voices", .arr voices)]))

end Spoken

end ArcReel.Provenance
