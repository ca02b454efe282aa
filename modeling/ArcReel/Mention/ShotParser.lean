import ArcReel.Lib.PyText
import ArcReel.Lib.Regex

/-! `lib.reference_video.shot_parser`: mentions, shot headers and dialogue lines as the
backend reads them. -/

namespace ArcReel.Mention
open ArcReel.Lib
open PyText

section Scanner

def isAsciiWordChar (c : Char) : Bool := c == '_' || c.isAlphanum

def isLegacyMentionChar (c : Char) : Bool :=
  c == '_' || c.isAlphanum || (0x4E00 ≤ c.toNat && c.toNat ≤ 0x9FFF)

structure MentionSpan where
  start : Nat
  stop : Nat
  name : List Char
  deriving DecidableEq, Repr

/-- The mention after an `@`: its length without the `@`, and its name. -/
def mentionAt : List Char → Option (Nat × List Char)
  | '[' :: inner =>
      let name := inner.takeWhile (· ≠ ']')
      if name ≠ [] ∧ name.length < inner.length ∧ (name.all fun c => c ≠ '\r' && c ≠ '\n') then
        some (name.length + 2, name)
      else none
  | rest =>
      let name := rest.takeWhile isLegacyMentionChar
      if name ≠ [] then some (name.length, name) else none

/-- The loop of `_iter_mentions` at a position; `skip` characters lie before the next one to look at. -/
def iterFrom (previous : Option Char) (position : Nat) : Nat → List Char → List MentionSpan
  | _, [] => []
  | skip + 1, c :: rest => iterFrom (some c) (position + 1) skip rest
  | 0, c :: rest =>
      match if c = '@' ∧ previous.any isAsciiWordChar = false then mentionAt rest else none with
      | some (length, name) => ⟨position, position + 1 + length, name⟩ ::
          iterFrom (some c) (position + 1) length rest
      | none => iterFrom (some c) (position + 1) 0 rest

/-- `_iter_mentions`. -/
def iterMentions (text : List Char) : List MentionSpan := iterFrom none 0 0 text

end Scanner

section Lines

variable (u : Unicode)

def normalizeSource (text : List Char) : List Char := u.nfc (text.filter (· ≠ bom))

def assetNameComparisonKey (name : List Char) : List Char := u.nfc (strip name)

def isColon (c : Char) : Bool := c == ':' || c == '：'

def literal (c : Char) : Regex := .char (· == c)

/-- `^镜头\s*\d+\s*[:：](.*)$` -/
def shotHeaderRe : Regex :=
  .seq .atStart (.seq (literal '镜') (.seq (literal '头') (.seq (.star isSpace) (.seq (.plus u.decimal)
    (.seq (.star isSpace) (.seq (.char isColon) (.seq (.group 1 (.star (· ≠ '\n'))) .atEnd)))))))

/-- What follows the header of a normalized line. -/
def shotHeader? (line : List Char) : Option (List Char) :=
  ((shotHeaderRe u).exec? (strip line)).bind fun found => (found.group? 1).map lstrip

def stripShotHeader (line : List Char) : List Char :=
  let normalized := normalizeSource u line
  (shotHeader? u normalized).getD normalized

def unwrapBraces (text : List Char) : Option (List Char) :=
  let body := strip text
  if body.length < 2 || body.head? != some '\x7b' || body.getLast? != some '\x7d' then none
  else
    let inner := body.tail.dropLast
    if inner.contains '\x7b' || inner.contains '\x7d' || (strip inner).isEmpty then none
    else some inner

def matchDialogueLine (line : List Char) : Option (List Char × List Char) :=
  let stripped := strip (normalizeSource u line)
  if stripped.head? != some '@' then none
  else match (iterMentions stripped).head? with
    | none => none
    | some first =>
        if first.start ≠ 0 then none
        else
          let rest := lstrip (stripped.drop first.stop)
          if !rest.head?.any isColon then none
          else match unwrapBraces rest.tail with
            | none => none
            | some spoken =>
                let speaker := assetNameComparisonKey u first.name
                if speaker.isEmpty then none else some (speaker, spoken)

/-- The name of a line that starts as `@[name]：`. -/
def leadingMentionBeforeColon (line : List Char) : Option (List Char) :=
  let stripped := strip (normalizeSource u line)
  if stripped.head? != some '@' then none
  else match (iterMentions stripped).head? with
    | none => none
    | some first =>
        if first.start ≠ 0 then none
        else if (lstrip (stripped.drop first.stop)).head?.any isColon then
          some (assetNameComparisonKey u first.name)
        else none

/-- The first `@[` that is no mention, or a full-width one, with what follows it. -/
def findMalformedMention (line : List Char) : Option (List Char) :=
  let text := normalizeSource u line
  let fullWidth (i : Nat) : Bool :=
    text[i]? = some '＠' || (text[i]? = some '@' && text[i + 1]? = some '［')
  let starts := (iterMentions text).map MentionSpan.start
  let broken (i : Nat) : Bool :=
    text[i]? = some '@' && text[i + 1]? = some '[' && !starts.contains i &&
      !(i > 0 && text[i - 1]?.any isAsciiWordChar)
  (((List.range text.length).find? fullWidth).orElse fun _ =>
    (List.range (text.length - 1)).find? broken).map fun i => (text.drop i).take 20

def matchVoiceoverLine (line : List Char) : Option (List Char) :=
  unwrapBraces (normalizeSource u line)

/-- Names in the order of their first occurrence. -/
def firstSeen {α : Type} [DecidableEq α] (names : List α) : List α :=
  names.foldl (fun seen name => if name ∈ seen then seen else seen ++ [name]) []

def extractMentions (text : List Char) : List (List Char) :=
  firstSeen ((splitlines text).flatMap fun raw =>
    let line := normalizeSource u raw
    if (matchDialogueLine u (stripShotHeader u line)).isSome then []
    else (iterMentions line).map fun mention => assetNameComparisonKey u mention.name)

end Lines

end ArcReel.Mention
