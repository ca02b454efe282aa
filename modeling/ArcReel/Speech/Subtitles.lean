import ArcReel.Lib.WebVtt
import ArcReel.Speech.Composition

/-! Subtitles of a unit: the utterances they show, how a media boundary is shared out among them, and
their WebVTT file. -/

namespace ArcReel.Speech
open Lib PyText Mention Prompt

section Utterances

variable (u : Unicode)

/-- `_canonical_text`. -/
def canonicalText (value : List Char) : List Char := strip (u.nfc (unifyNewlines value))

/-- Canonical spoken text that is not empty. -/
structure SubtitleUtteranceEvidence where
  owner : SpeechOwner
  text : List Char
  speaker : Option (List Char)
  canonical : ∃ value, text = canonicalText u value
  filled : text ≠ []

/-- The evidence of an utterance, nothing where `__post_init__` raises. -/
def subtitleUtteranceEvidence (owner : SpeechOwner) (text : List Char) (speaker : Option (List Char)) :
    Option (SubtitleUtteranceEvidence u) :=
  if filled : canonicalText u text ≠ [] then
    match owner with
    | .character =>
      if (assetNameComparisonKey u (speaker.getD [])).isEmpty then none
      else some ⟨.character, canonicalText u text, some (assetNameComparisonKey u (speaker.getD [])),
        ⟨text, rfl⟩, filled⟩
    | .narrator =>
      if speaker.isSome then none else some ⟨.narrator, canonicalText u text, none, ⟨text, rfl⟩, filled⟩
  else none

/-- `project_subtitle_utterances`, nothing where it raises. -/
def projectSubtitleUtterances (preparation : SpeechPreparation) :
    Option (List (SubtitleUtteranceEvidence u)) :=
  if !preparation.problems.isEmpty || preparation.mode.isNone then none
  else
    (preparation.utterances.filter fun utterance => !(canonicalText u utterance.text).isEmpty).mapM
      fun utterance => subtitleUtteranceEvidence u utterance.owner (canonicalText u utterance.text)
        utterance.speaker

end Utterances

structure SubtitleCue where
  startMicroseconds : Nat
  durationMicroseconds : Nat
  text : List Char
  owner : SpeechOwner
  speaker : Option (List Char)
  deriving DecidableEq, Repr

def SubtitleCue.endMicroseconds (cue : SubtitleCue) : Nat := cue.startMicroseconds + cue.durationMicroseconds

section Timing

variable {u : Unicode}

/-- The loop of `distribute` after `cumulative` characters, nothing where it raises. -/
def allot (boundaryMicroseconds totalWeight : Nat) :
    Nat → List (SubtitleUtteranceEvidence u) → Option (List SubtitleCue)
  | _, [] => some []
  | cumulative, utterance :: rest =>
    let start := boundaryMicroseconds * cumulative / totalWeight
    let stop := boundaryMicroseconds * (cumulative + utterance.text.length) / totalWeight
    if stop ≤ start then none
    else
      (allot boundaryMicroseconds totalWeight (cumulative + utterance.text.length) rest).map
        (⟨start, stop - start, utterance.text, utterance.owner, utterance.speaker⟩ :: ·)

def totalWeight (utterances : List (SubtitleUtteranceEvidence u)) : Nat :=
  (utterances.map fun utterance => utterance.text.length).sum

/-- `MechanicalSubtitleTiming.distribute`, nothing where it raises. -/
def distribute (utterances : List (SubtitleUtteranceEvidence u)) (boundaryMicroseconds : Nat) :
    Option (List SubtitleCue) :=
  if boundaryMicroseconds = 0 then none
  else if utterances.isEmpty then some []
  else if totalWeight utterances = 0 then none
  else allot boundaryMicroseconds (totalWeight utterances) 0 utterances

end Timing

section Export

/-- A number with at least `width` digits. -/
def padded (width n : Nat) : List Char :=
  List.replicate (width - (Nat.toDigits 10 n).length) '0' ++ Nat.toDigits 10 n

def vttTimestamp (microseconds : Nat) : List Char :=
  let milliseconds := microseconds / 1000
  let hours := milliseconds / 3600000
  let remainder := milliseconds % 3600000
  let minutes := remainder / 60000
  let seconds := remainder % 60000 / 1000
  let millis := remainder % 60000 % 1000
  padded 2 hours ++ ':' :: (padded 2 minutes ++ ':' :: (padded 2 seconds ++ '.' :: padded 3 millis))

def cueLines (text : List Char) : List (List Char) :=
  (text.splitOn '\n').filter fun line => !(strip line).isEmpty

def webvttCueText (text : List Char) : List Char := joinLines (cueLines text)

def subtitlesWebvtt (cues : List SubtitleCue) : List Char :=
  joinLines ("WEBVTT".toList :: [] :: (cues.zipIdx 1).flatMap fun cue =>
    [Nat.toDigits 10 cue.2,
      vttTimestamp cue.1.startMicroseconds ++ " --> ".toList ++ vttTimestamp cue.1.endMicroseconds,
      webvttCueText cue.1.text, []])

end Export

end ArcReel.Speech
