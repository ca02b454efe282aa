import ArcReel.Lib.Json
import ArcReel.Mention.ShotParser

/-! The writing layer of a reference video unit: shots, the text they are assembled to, the
utterances of their lines and the mentions rendered as subjects. -/

namespace ArcReel.Prompt
open Lib PyText Mention

/-- The warnings of preview and rendering, with their parameters. -/
inductive Warning where
  | unregisteredMention (name : List Char)
  | unclosedBrace (shot : Nat) (excerpt : List Char)
  | dialogueInline (shot : Nat)
  | unregisteredSpeaker (name : List Char)
  | speakerWithoutAudio (name : List Char)
  | speakerAudioUnavailable (name : List Char)
  | referenceAudioOverflow (limit : Nat) (name : List Char)
  | silentModel (model : List Char)
  | silentEpisode
  | speakerAudioNeedsImage (name : List Char)
  deriving DecidableEq, Repr

inductive Utterance where
  | dialogue (speaker text : List Char)
  | voiceover (text : List Char)
  deriving DecidableEq, Repr

def Utterance.speaker? : Utterance → Option (List Char)
  | dialogue speaker _ => some speaker
  | voiceover _ => none

structure ShotUtterance where
  shotIndex : Nat
  utterance : Utterance
  deriving DecidableEq, Repr

def joinLines (lines : List (List Char)) : List Char := List.intercalate ['\n'] lines

def excerptLen : Nat := 30

section Parsing

variable (u : Unicode)

/-- The loop of `parse_prompt`: what is cut so far, whether a header was met, and the lines of the
shot under way. -/
structure Cut where
  segments : List (List Char)
  started : Bool
  current : List (List Char)

def Cut.line (cut : Cut) (line : List Char) : Cut :=
  match shotHeader? u line with
  | none => { cut with current := cut.current ++ [line] }
  | some rest =>
    if cut.started then ⟨cut.segments ++ [strip (joinLines cut.current)], true, [rest]⟩
    else
      let opening := strip (joinLines cut.current)
      ⟨cut.segments, true, if opening.isEmpty then [rest] else [opening, rest]⟩

/-- The texts of the shots; a text without header is one shot. -/
def parseShots (text : List Char) : List (List Char) :=
  let cut := (splitlines text).foldl (Cut.line u) ⟨[], false, []⟩
  if cut.started then cut.segments ++ [strip (joinLines cut.current)] else [strip text]

def parsePrompt (text : List Char) : List (List Char) × List (List Char) :=
  let text := normalizeSource u text
  (parseShots u text, extractMentions u text)

/-- One line of a shot: its utterance or its warning, if it has one. -/
def readLine (index : Nat) (line : List Char) : List ShotUtterance × List Warning :=
  if line.count '\x7b' ≠ line.count '\x7d' then
    ([], [.unclosedBrace index ((strip line).take excerptLen)])
  else match matchDialogueLine u line with
    | some (speaker, text) => ([⟨index, .dialogue speaker text⟩], [])
    | none =>
      match matchVoiceoverLine u line with
      | some text => ([⟨index, .voiceover text⟩], [])
      | none => ([], if '\x7b' ∈ line then [.dialogueInline index] else [])

/-- The shots with their positions, from 1. -/
def numbered {α : Type} (items : List α) : List (Nat × α) := (List.range' 1 items.length).zip items

def deriveUtterances (shots : List (List Char)) : List ShotUtterance × List Warning :=
  let read := (numbered shots).flatMap fun shot =>
    (splitlines shot.2).map (readLine u shot.1)
  (read.flatMap Prod.fst, read.flatMap Prod.snd)

def shotText : Json → List Char
  | .obj fields => ((Json.obj fields).get "text").str?.elim [] String.toList
  | _ => []

/-- The decimal numeral of a position. -/
def numeral (n : Nat) : List Char := (toString n).toList

/-- `text.split("\n")`. -/
def splitNewlines : List Char → List (List Char)
  | [] => [[]]
  | c :: rest => if c = '\n' then [] :: splitNewlines rest else consLine c (splitNewlines rest)

def assembleShotsTextForRender (shots : List Json) : List Char :=
  joinLines ((numbered shots).filterMap fun shot =>
    if shot.2.isObj then
      let lines := match splitNewlines (shotText shot.2) with
        | first :: rest => stripShotHeader u first :: rest
        | [] => []
      some ("镜头".toList ++ numeral shot.1 ++ ['：'] ++ joinLines lines)
    else none)

/-- The text with the mentions of the given names as `<name>`. -/
def renderMentionsAsSubjects (names : List (List Char)) (text : List Char) : List Char :=
  let text := normalizeSource u text
  let rec go : Nat → List MentionSpan → List Char
    | last, [] => text.drop last
    | last, mention :: rest =>
      let canonical := assetNameComparisonKey u mention.name
      (text.take mention.start).drop last ++
        (if canonical ∈ names.map (assetNameComparisonKey u) then ['<'] ++ canonical ++ ['>']
        else (text.take mention.stop).drop mention.start) ++ go mention.stop rest
  go 0 (iterMentions text)

end Parsing

end ArcReel.Prompt
