import ArcReel.Access.Shell

/-! `is_bash_command_whitelisted`, against the words that a shell makes of the command. -/

namespace ArcReel.Access
open Lib PyText

section Check

/-- `_BASH_METACHARS_RE`. -/
def isMetachar (c : Char) : Bool := c ∈ [';', '&', '|', '<', '>', Char.ofNat 0x60, '$', '\r', '\n']

def unquote (command : List Char) : List Char := command.filter fun c => !isQuote c

/-- `replace("\\", "/")`. -/
def slash (c : Char) : Char := if c = '\\' then '/' else c

def slashed (command : List Char) : List Char := command.map slash

/-- `replace("\\", "")`. -/
def unescaped (command : List Char) : List Char := command.filter fun c => c ≠ '\\'

/-- What may stand on either side of a `..` segment. -/
def isBoundary (c : Char) : Bool := isSpace c || c == '/' || c == '\\'

/-- A `..` here that ends at a boundary. -/
def dotsHere : List Char → Bool
  | '.' :: '.' :: rest => rest.head?.all isBoundary
  | _ => false

/-- `_BASH_PATH_TRAVERSAL_RE.search` behind a boundary or another character. -/
def traversalFrom : Bool → List Char → Bool
  | _, [] => false
  | start, c :: rest => start && dotsHere (c :: rest) || traversalFrom (isBoundary c) rest

def hasTraversal (command : List Char) : Bool := traversalFrom true command

def pythonSkillsPrefix : List Char := "python .claude/skills/".toList

/-- `WINDOWS_BASH_PREFIX_WHITELIST`. -/
def windowsBashPrefixWhitelist : List (List Char) := [pythonSkillsPrefix, "ffmpeg".toList, "ffprobe".toList]

/-- `_SKILL_SCRIPT_RE.match` of a text without white space. -/
def matchesSkillScript (script : List Char) : Bool :=
  match script.splitOnP (· == '/') with
  | [root, skills, skill, scripts, file] =>
    root == ".claude".toList && skills == "skills".toList && !skill.isEmpty &&
      scripts == "scripts".toList && ".py".toList.isSuffixOf file && 3 < file.length
  | _ => false

/-- `split` at white space. -/
def splitWhite (command : List Char) : List (List Char) := pieces isSpace command

def isAllowedPythonSkillCommand (normalized : List Char) : Bool :=
  match splitWhite normalized with
  | _ :: script :: _ => matchesSkillScript script
  | _ => false

def admittedBy (normalized entry : List Char) : Bool :=
  if entry = pythonSkillsPrefix then entry.isPrefixOf normalized && isAllowedPythonSkillCommand normalized
  else if entry.contains ' ' then entry.isPrefixOf normalized
  else normalized == entry || (entry ++ [' ']).isPrefixOf normalized

def isBashCommandWhitelisted (command : List Char) : Bool :=
  let stripped := strip command
  if stripped.isEmpty || stripped.any isMetachar then false
  else
    let plain := unquote stripped
    if [stripped, slashed plain, unescaped plain].any hasTraversal then false
    else windowsBashPrefixWhitelist.any (admittedBy (slashed plain))

end Check

section Words

/-- A name of a skill or script: not empty, without white space, quote or separator. -/
def PlainName (name : List Char) : Prop :=
  name ≠ [] ∧ ∀ c ∈ name, isSpace c = false ∧ isQuote c = false ∧ c ≠ '/' ∧ c ≠ '\\'

/-- The path `.claude/skills/<skill>/scripts/<script>.py`. -/
def DenotesSkillScript (separates : Char → Bool) (path : List Char) : Prop :=
  ∃ skill name, PlainName skill ∧ PlainName name ∧ path.splitOnP separates =
    [".claude".toList, "skills".toList, skill, "scripts".toList, name ++ ".py".toList]

/-- What the whitelist stands for, of the words of a command. -/
def Sound (separates : Char → Bool) : List (List Char) → Prop
  | [] => False
  | first :: arguments =>
    first = "ffmpeg".toList ∨ first = "ffprobe".toList ∨ first = "python".toList ∧
      (∃ script rest, arguments = script :: rest ∧ DenotesSkillScript separates script) ∧
      ∀ argument ∈ arguments, "..".toList ∉ argument.splitOnP separates

def posixSeparator (c : Char) : Bool := c == '/'

def windowsSeparator (c : Char) : Bool := c == '/' || c == '\\'

/-- An accepted command is sound in both readings. -/
def WhitelistSound (command : List Char) : Prop :=
  isBashCommandWhitelisted command = true →
    (∀ marks, posixMarks .none command = some marks → Sound posixSeparator (words marks)) ∧
      Sound windowsSeparator (words (windowsMarks .none command))

/-- No character of the run is white space, and none that stands for itself is a quote. -/
def PlainRun (run : List Mark) : Prop :=
  (∀ c ∈ source run, isSpace c = false) ∧ ∀ c ∈ text run, isQuote c = false

/-- The words that the whitelist looks at are plain, and so written that `keeps` holds of them. -/
def HeadPlain (keeps : List Char → Prop) : List (List Mark) → Prop
  | [] => False
  | first :: rest => PlainRun first ∧ (text first = "python".toList →
      ∃ script more, rest = script :: more ∧ PlainRun script ∧ keeps (source script))

end Words

end ArcReel.Access
