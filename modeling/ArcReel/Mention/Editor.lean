import ArcReel.Mention.ShotParser

/-! `utils/reference-mentions.ts`: mentions, shot headers and dialogue lines as the editor
reads them, by regular expressions. -/

namespace ArcReel.Mention.Editor
open ArcReel.Lib
open PyText

/-- `\s` -/
def isSpace (c : Char) : Bool :=
  let n := c.toNat
  (0x9 ≤ n && n ≤ 0xD) || n == 0x20 || n == 0xA0 || n == 0x1680 || (0x2000 ≤ n && n ≤ 0x200A) ||
    n == 0x2028 || n == 0x2029 || n == 0x202F || n == 0x205F || n == 0x3000 || n == 0xFEFF

/-- `\w` without the flag `u`. -/
def isWord (c : Char) : Bool := c.isAlphanum || c == '_'

/-- `[\w\u4e00-\u9fff]` -/
def isBareName (c : Char) : Bool := isWord c || (0x4E00 ≤ c.toNat && c.toNat ≤ 0x9FFF)

/-- `[^\]\r\n]` -/
def isWrappedName (c : Char) : Bool := c != ']' && c != '\r' && c != '\n'

/-- `(?:\[([^\]\r\n]+)\]|([\w\u4e00-\u9fff]+))` -/
def nameRe : Regex :=
  .either (.seq (literal '[') (.seq (.group 1 (.plus isWrappedName)) (literal ']')))
    (.group 2 (.plus isBareName))

def mentionRe : Regex := .seq (.notAfter isWord) (.seq (literal '@') nameRe)

/-- `[^{}]` -/
def isSpoken (c : Char) : Bool := c != '\x7b' && c != '\x7d'

/-- The dialogue line without `^`. -/
def dialogueBody : Regex :=
  .seq (.star isSpace) (.seq (literal '@') (.seq nameRe (.seq (.star isSpace) (.seq (.char isColon)
    (.seq (.star isSpace) (.seq (literal '\x7b') (.seq (.group 3 (.star isSpoken))
      (.seq (literal '\x7d') (.seq (.star isSpace) .atEnd)))))))))

def dialogueLineRe : Regex := .seq .atStart dialogueBody

section Lines

variable (u : Unicode)

/-- The shot header without `^`. -/
def shotHeaderBody : Regex :=
  .seq (.star isSpace) (.seq (literal '镜') (.seq (literal '头') (.seq (.star isSpace)
    (.seq (.plus u.decimal) (.seq (.star isSpace) (.seq (.char isColon) (.star isSpace)))))))

def shotHeaderPrefixRe : Regex := .seq .atStart (shotHeaderBody u)

/-- The class of `PYTHON_STRIP_RE`. -/
def isPythonSpace (c : Char) : Bool :=
  let n := c.toNat
  (0x9 ≤ n && n ≤ 0xD) || (0x1C ≤ n && n ≤ 0x20) || n == 0x85 || n == 0xA0 || n == 0x1680 ||
    (0x2000 ≤ n && n ≤ 0x200A) || n == 0x2028 || n == 0x2029 || n == 0x202F || n == 0x205F ||
    n == 0x3000

def normalizeAssetName (name : List Char) : List Char :=
  u.nfc ((name.dropWhile isPythonSpace).rdropWhile isPythonSpace)

/-- `mentionNameFromMatch`. -/
def mentionName (found : Regex.State) : List Char :=
  normalizeSource u (((found.group? 1).orElse fun _ => found.group? 2).getD [])

/-- The even parts of `text.split(LINE_BREAK_RE)`. -/
def splitBreaks : List Char → List (List Char)
  | [] => [[]]
  | '\r' :: '\n' :: rest => [] :: splitBreaks rest
  | c :: rest => if isLineBreak c then [] :: splitBreaks rest else consLine c (splitBreaks rest)

def splitScriptLines (text : List Char) : List (List Char) :=
  if text.isEmpty then []
  else
    let lines := splitBreaks (normalizeSource u text)
    if lines.getLast? = some [] then lines.dropLast else lines

def hasSpokenText (text : List Char) : Bool := ((text.dropWhile isSpace).rdropWhile isSpace).length > 0

def matchDialogueLine (line : List Char) : Option (List Char × List Char) :=
  match dialogueLineRe.exec? (normalizeSource u line) with
  | none => none
  | some found =>
      let speaker := normalizeAssetName u (((found.group? 1).orElse fun _ => found.group? 2).getD [])
      let text := (found.group? 3).getD []
      if speaker.isEmpty || !hasSpokenText text then none else some (speaker, text)

def extractMentions (text : List Char) : List (List Char) :=
  firstSeen ((splitScriptLines u text).flatMap fun line =>
    if (matchDialogueLine u ((shotHeaderPrefixRe u).remove line)).isSome then []
    else (mentionRe.matchAll 0 [] line).map fun found => normalizeAssetName u (mentionName u found))

end Lines

end ArcReel.Mention.Editor
