import ArcReel.Prompt.Shots

/-! `lib.speech_composition` for reference video units: the utterances of the writing layer, their
owners, and the problems that keep a unit from generation. -/

namespace ArcReel.Speech
open Lib PyText Mention Prompt

/-- Membership in lists of texts is decided with one proof here. -/
local instance lawfulLine : LawfulBEq (List Char) := inferInstance

inductive SpeechOwner where
  | character
  | narrator
  deriving DecidableEq, Repr

inductive SpeechMode where
  | characterSpeech
  | narratorVoiceover
  | silent
  deriving DecidableEq, Repr

inductive SpeechProblemCode where
  | mixedSpeech
  | needsReplan
  | parseFailed
  | emptySpeaker
  deriving DecidableEq, Repr

inductive SpeechProblemAction where
  | replanUnit
  | fixInput
  | assignSpeaker
  deriving DecidableEq, Repr

/-- What to do about a problem. -/
def SpeechProblemCode.action : SpeechProblemCode → SpeechProblemAction
  | mixedSpeech | needsReplan => .replanUnit
  | parseFailed => .fixInput
  | emptySpeaker => .assignSpeaker

inductive PathPart where
  | field (name : String)
  | index (position : Nat)
  deriving DecidableEq, Repr

structure SpeechFieldLocation where
  path : List PathPart
  line : Option Nat
  deriving DecidableEq, Repr

structure SpeechProblem where
  code : SpeechProblemCode
  unitId : List Char
  locations : List SpeechFieldLocation
  deriving DecidableEq, Repr

structure SpeechInputUtterance where
  text : List Char
  speaker : Option (List Char)
  speakerRequired : Bool
  location : SpeechFieldLocation
  deriving DecidableEq, Repr

structure SpeechUtterance where
  owner : SpeechOwner
  text : List Char
  speaker : Option (List Char)
  location : SpeechFieldLocation
  deriving DecidableEq, Repr

structure SpeechUnitSnapshot where
  unitId : List Char
  entries : List SpeechInputUtterance
  problems : List SpeechProblem

structure SpeechPreparation where
  unitId : List Char
  mode : Option SpeechMode
  utterances : List SpeechUtterance
  problems : List SpeechProblem

/-- The speaker of an entry without outer whitespace; blank is none. -/
def namedSpeaker (entry : SpeechInputUtterance) : Option (List Char) :=
  (entry.speaker.map strip).filter (· ≠ [])

def utteranceOf (entry : SpeechInputUtterance) : SpeechUtterance where
  owner := if (namedSpeaker entry).isSome || entry.speakerRequired then .character else .narrator
  text := entry.text
  speaker := namedSpeaker entry
  location := entry.location

/-- `SpeechComposition.prepare`. -/
def prepare (snapshot : SpeechUnitSnapshot) : SpeechPreparation :=
  let utterances := snapshot.entries.map utteranceOf
  let unnamed := (snapshot.entries.filter fun entry =>
    entry.speakerRequired && (namedSpeaker entry).isNone).map fun entry =>
      SpeechProblem.mk .emptySpeaker snapshot.unitId [entry.location]
  let characters := utterances.any fun utterance => utterance.owner = .character
  let narrators := utterances.any fun utterance => utterance.owner = .narrator
  let mixed := if characters && narrators then
    [SpeechProblem.mk .mixedSpeech snapshot.unitId (utterances.map SpeechUtterance.location)] else []
  let problems := snapshot.problems ++ unnamed ++ mixed
  let mode := if !problems.isEmpty then none
    else if characters then some SpeechMode.characterSpeech
    else if narrators then some SpeechMode.narratorVoiceover
    else some SpeechMode.silent
  ⟨snapshot.unitId, mode, utterances, problems⟩

/-- `^\s*@\[\s*\]\s*[:：]\s*\{([^{}]+)\}\s*$` -/
def emptySpeakerLine : Regex :=
  .seq .atStart (.seq (.star isSpace) (.seq (literal '@') (.seq (literal '[') (.seq (.star isSpace)
    (.seq (literal ']') (.seq (.star isSpace) (.seq (.char isColon) (.seq (.star isSpace)
      (.seq (literal '\x7b') (.seq (.group 1 (.plus fun c => c != '\x7b' && c != '\x7d'))
        (.seq (literal '\x7d') (.seq (.star isSpace) .atEnd))))))))))))

def parseProblem (unitId : List Char) (location : SpeechFieldLocation) : SpeechProblem :=
  ⟨.parseFailed, unitId, [location]⟩

def initialProblems (source : Json) (unitId : List Char) (idField : String) : List SpeechProblem :=
  (if isBlank unitId then [parseProblem unitId ⟨[.field idField], none⟩] else []) ++
    match source.get "needs_replan" with
    | .bool true => [⟨.needsReplan, unitId, [⟨[.field "needs_replan"], none⟩]⟩]
    | .bool false | .null => []
    | _ => [parseProblem unitId ⟨[.field "needs_replan"], none⟩]

/-- The names of the references that are not characters. -/
def nonCharacterReferenceNames (u : Unicode) (references : Json) : List (List Char) :=
  match references with
  | .arr items => items.filterMap fun item =>
      match (item.get "type").str?, (item.get "name").str? with
      | some type, some name =>
        if (type = "product" ∨ type = "scene" ∨ type = "prop") ∧ strip name.toList ≠ [] then
          some (u.nfc (strip name.toList))
        else none
      | _, _ => none
  | _ => []

section Unit

variable (u : Unicode) (unitId : List Char) (nonCharacterNames : List (List Char))

/-- One line of a shot: its entry or its problem, if it has one. -/
def adaptLine (location : SpeechFieldLocation) (line : List Char) :
    Option (SpeechInputUtterance ⊕ SpeechProblem) :=
  match matchDialogueLine u line with
  | some (speaker, spoken) => some (.inl ⟨spoken, some speaker, true, location⟩)
  | none =>
    match matchVoiceoverLine u line with
    | some spoken => some (.inl ⟨spoken, none, false, location⟩)
    | none =>
      match ((emptySpeakerLine.exec? (line.filter (· ≠ bom))).bind (·.group? 1)) with
      | some spoken =>
        if isBlank spoken then some (.inr (parseProblem unitId location))
        else some (.inl ⟨spoken, none, true, location⟩)
      | none =>
        let badBrace := line.any fun c => c == '\x7b' || c == '\x7d' || c == '｛' || c == '｝'
        let badLead := (leadingMentionBeforeColon u line).any fun name =>
          u.nfc (strip name) ∉ nonCharacterNames
        if badBrace || badLead || (findMalformedMention u line).isSome then
          some (.inr (parseProblem unitId location))
        else none

def adaptShot (index : Nat) (shot : Json) : List (SpeechInputUtterance ⊕ SpeechProblem) :=
  if shot.isObj then
    match shot.get "text" with
    | .str text => ((splitlines text.toList).zipIdx).filterMap fun line =>
        adaptLine u unitId nonCharacterNames
          ⟨[.field "shots", .index index, .field "text"], some line.2⟩ line.1
    | _ => [.inr (parseProblem unitId ⟨[.field "shots", .index index, .field "text"], none⟩)]
  else [.inr (parseProblem unitId ⟨[.field "shots", .index index], none⟩)]

end Unit

def adaptVideoUnit (u : Unicode) (unit : Json) : SpeechUnitSnapshot :=
  let unitId := (unit.get "unit_id").str?.elim [] String.toList
  let initial := initialProblems unit unitId "unit_id"
  let names := nonCharacterReferenceNames u (unit.get "references")
  let items := match unit.get "shots" with
    | .arr (shot :: shots) => ((shot :: shots).zipIdx).flatMap fun (item : Json × Nat) =>
        adaptShot u unitId names item.2 item.1
    | _ => [.inr (parseProblem unitId ⟨[.field "shots"], none⟩)]
  ⟨unitId, items.filterMap Sum.getLeft?, initial ++ items.filterMap Sum.getRight?⟩

/-- The preparation that `admit_script_unit("video_units", unit)` is made from. -/
def admitVideoUnit (u : Unicode) (unit : Json) : SpeechPreparation := prepare (adaptVideoUnit u unit)

def SpeechPreparation.allowed (preparation : SpeechPreparation) : Bool := preparation.problems.isEmpty

end ArcReel.Speech
