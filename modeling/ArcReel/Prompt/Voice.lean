import ArcReel.Prompt.References

/-! Which speakers are bound to a reference audio, for the preview panel and for execution. -/

namespace ArcReel.Prompt
open Lib PyText Mention

/-- Membership in lists of texts is decided with one proof here. -/
local instance lawfulName : LawfulBEq (List Char) := inferInstance

inductive VoiceConsistency where
  | native
  | soft
  | none
  deriving DecidableEq, Repr

structure VoiceRenderSettings where
  voiceConsistency : VoiceConsistency
  requestedGenerateAudio : Bool
  maxReferenceAudio : Nat
  modelId : List Char
  audioReady : Option (List (List Char))
  requiresReferenceImage : Bool

def VoiceRenderSettings.isSilent (settings : VoiceRenderSettings) : Bool :=
  settings.voiceConsistency = .none || !settings.requestedGenerateAudio

structure VoiceBindings where
  speakers : List (List Char)
  audioSpeakers : List (List Char)
  warnings : List Warning
  deriving DecidableEq, Repr

section Bindings

variable (u : Unicode) (characters : Dict (List Char) Json) (settings : VoiceRenderSettings)

/-- The speakers in the order in which they first speak. -/
def speakersOf (utterances : List ShotUtterance) : List (List Char) :=
  firstSeen ((utterances.map fun entry =>
    assetNameComparisonKey u (entry.utterance.speaker?.getD [])).filter (· ≠ []))

/-- The character has a value in its `reference_audio` field. -/
def audioFieldSet (speaker : List Char) : Bool :=
  match characters.get? speaker with
  | some (.obj fields) => ((Json.obj fields).get "reference_audio").truthy
  | _ => false

def hasAudio (speaker : List Char) : Bool :=
  match settings.audioReady with
  | some ready => speaker ∈ ready.map (assetNameComparisonKey u)
  | none => audioFieldSet characters speaker

/-- The loop over the registered speakers of a model with native audio references. -/
def bindAudio (imageNames : List (List Char)) :
    List (List Char) → List (List Char) → List (List Char) × List Warning
  | [], bound => (bound, [])
  | speaker :: rest, bound =>
    if hasAudio u characters settings speaker = false then
      let reason := if settings.audioReady.isSome && audioFieldSet characters speaker then
        Warning.speakerAudioUnavailable speaker else Warning.speakerWithoutAudio speaker
      let (last, warnings) := bindAudio imageNames rest bound
      (last, reason :: warnings)
    else if settings.requiresReferenceImage && speaker ∉ imageNames then
      let (last, warnings) := bindAudio imageNames rest bound
      (last, .speakerAudioNeedsImage speaker :: warnings)
    else if settings.maxReferenceAudio ≤ bound.length then
      let (last, warnings) := bindAudio imageNames rest bound
      (last, .referenceAudioOverflow settings.maxReferenceAudio speaker :: warnings)
    else bindAudio imageNames rest (bound ++ [speaker])

/-- `derive_voice_bindings`, on a table that is already normalized. -/
def deriveVoiceBindings (utterances : List ShotUtterance)
    (speakersWithReferenceImage : List (List Char)) : VoiceBindings :=
  let seen := speakersOf u utterances
  let registered := seen.filter fun speaker => (characters.get? speaker).isSome
  let unregistered := seen.filter fun speaker => (characters.get? speaker).isNone
  let unknown := unregistered.map Warning.unregisteredSpeaker
  if settings.isSilent then
    let silent := if utterances.isEmpty then []
      else if settings.requestedGenerateAudio then [.silentModel settings.modelId]
      else [.silentEpisode]
    ⟨registered, [], unknown ++ silent⟩
  else if settings.voiceConsistency = .native then
    let (bound, warnings) := bindAudio u characters settings
      (speakersWithReferenceImage.map (assetNameComparisonKey u)) registered []
    ⟨registered, bound, unknown ++ warnings⟩
  else ⟨registered, [], unknown⟩

end Bindings

structure ScriptPreview where
  shots : List (List Char)
  references : List Reference
  utterances : List ShotUtterance
  warnings : List Warning

/-- The names of the references to characters. -/
def characterNames (references : List Reference) : List (List Char) :=
  (references.filter (·.type = .character)).map Reference.name

/-- What the panel shows for a text; `limit` is the number of reference images a request may have. -/
def buildScriptPreview (u : Unicode) (text : List Char) (project : Json)
    (settings : VoiceRenderSettings) (limit : Option Nat) : ScriptPreview :=
  let (shots, mentions) := parsePrompt u text
  let (references, missing) := resolveReferences u mentions project
  let (utterances, syntaxWarnings) := deriveUtterances u shots
  let clipped := limit.elim references references.take
  let bindings := deriveVoiceBindings u (bucket u project .character) settings utterances
    (characterNames clipped)
  ⟨shots, references, utterances,
    missing.map .unregisteredMention ++ syntaxWarnings ++ bindings.warnings⟩

end ArcReel.Prompt
