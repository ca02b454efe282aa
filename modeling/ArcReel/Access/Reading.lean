import ArcReel.Lib.Pieces
import ArcReel.Lib.Except

/-! Which paths the file tools of a session may read, on a file system without links. -/

namespace ArcReel.Access
open Lib

/-- The names from the root down to a place. -/
abbrev Path := List (List Char)

namespace Path

def text : Path → List Char
  | [] => ['/']
  | path => path.flatMap fun name => '/' :: name

theorem text_cons (first : List Char) (path : Path) :
    text (first :: path) = (first :: path).flatMap fun name => '/' :: name := rfl

def name (path : Path) : List Char := path.getLast?.getD []

def relativeTo (path parent : Path) : Option Path :=
  if parent.isPrefixOf path then some (path.drop parent.length) else none

theorem relativeTo_append (parent below : Path) :
    relativeTo (parent ++ below) parent = some below := by
  rw [relativeTo, if_pos (List.isPrefixOf_iff_prefix.mpr (List.prefix_append _ _)),
    List.drop_left]

theorem relativeTo_eq_some {path parent below : Path} :
    relativeTo path parent = some below ↔ path = parent ++ below := by
  constructor
  · intro found
    rw [relativeTo] at found
    split at found
    · next front =>
      obtain ⟨rest, whole⟩ := List.isPrefixOf_iff_prefix.mp front
      rw [← whole, List.drop_left, Option.some.injEq] at found
      rw [← found, whole]
    · cases found
  · intro whole
    rw [whole, relativeTo_append]

theorem relativeTo_eq_none {path parent : Path} :
    relativeTo path parent = none ↔ ¬parent <+: path := by
  rw [relativeTo]
  split
  · next front => simpa using List.isPrefixOf_iff_prefix.mp front
  · next apart => simpa using fun front => apart (List.isPrefixOf_iff_prefix.mpr front)

theorem text_prefix {parent path : Path} (above : parent <+: path) :
    parent.text <+: path.text := by
  obtain ⟨below, rfl⟩ := above
  cases parent with
  | nil =>
    cases below with
    | nil => exact List.prefix_refl _
    | cons first below => exact ⟨first ++ below.flatMap fun name => '/' :: name, by simp [text]⟩
  | cons first parent =>
    refine ⟨below.flatMap fun name => '/' :: name, ?_⟩
    simp only [text, List.cons_append, List.flatMap_cons, List.flatMap_append, List.append_assoc]

end Path

section Names

def isSlash (c : Char) : Bool := c == '/'

/-- What can stand between two slashes of a resolved path. -/
structure IsName (name : List Char) : Prop where
  filled : name ≠ []
  whole : ∀ c ∈ name, isSlash c = false
  textual : Char.ofNat 0 ∉ name
  not_here : name ≠ ".".toList
  not_above : name ≠ "..".toList

def follow (place : Path) (name : List Char) : Path :=
  if name = ".".toList then place
  else if name = "..".toList then place.dropLast
  else place ++ [name]

/-- `Path.resolve` of a path text that starts at `cwd` unless it is absolute. -/
def resolve (cwd : Path) (text : List Char) : Option Path :=
  if text.contains (Char.ofNat 0) then none
  else some ((pieces isSlash text).foldl follow (if text.head? = some '/' then [] else cwd))

theorem foldl_follow {path : Path} (names : ∀ name ∈ path, IsName name) (place : Path) :
    path.foldl follow place = place ++ path := by
  induction path generalizing place with
  | nil => rw [List.foldl_nil, List.append_nil]
  | cons name path ih =>
    have here := names name List.mem_cons_self
    rw [List.foldl_cons, follow, if_neg here.not_here, if_neg here.not_above,
      ih (fun other member => names other (List.mem_cons_of_mem _ member)), List.append_assoc,
      List.singleton_append]

theorem pieces_flatMap {path : Path} (names : ∀ name ∈ path, IsName name) :
    pieces isSlash (path.flatMap fun name => '/' :: name) = path := by
  induction path with
  | nil => rfl
  | cons name path ih =>
    have here := names name List.mem_cons_self
    have rest := ih fun other member => names other (List.mem_cons_of_mem _ member)
    rw [List.flatMap_cons, List.cons_append, pieces_of_sep rfl]
    obtain ⟨c, more, rfl⟩ := List.exists_cons_of_ne_nil here.filled
    have plain := List.forall_mem_cons.mp here.whole
    have front : (more ++ path.flatMap fun name => '/' :: name).takeWhile (fun c => !isSlash c) =
        more := by
      rw [List.takeWhile_append_of_pos fun d member => by simp [plain.2 d member]]
      cases path with
      | nil => simp
      | cons other path => simp [isSlash]
    have back : (more ++ path.flatMap fun name => '/' :: name).dropWhile (fun c => !isSlash c) =
        path.flatMap fun name => '/' :: name := by
      rw [List.dropWhile_append_of_pos fun d member => by simp [plain.2 d member]]
      cases path with
      | nil => simp
      | cons other path => simp [isSlash]
    rw [List.cons_append, pieces_of_plain plain.1, front, back, rest]

theorem resolve_text {path : Path} (names : ∀ name ∈ path, IsName name) (cwd : Path) :
    resolve cwd path.text = some path := by
  cases path with
  | nil => rfl
  | cons first path =>
    have textual : (Path.text (first :: path)).contains (Char.ofNat 0) = false := by
      rw [← Bool.not_eq_true, List.contains_iff_mem, Path.text_cons, List.mem_flatMap]
      rintro ⟨name, member, inside⟩
      cases List.mem_cons.mp inside with
      | inl slash => exact absurd slash (by decide)
      | inr inside => exact (names name member).textual inside
    rw [resolve, textual, Path.text_cons, pieces_flatMap names, foldl_follow names]
    simp

end Names

/-- The files and directories of a file system without links. -/
structure FileTree where
  files : List Path
  dirs : List Path
  names : ∀ path ∈ files ++ dirs, ∀ name ∈ path, IsName name
  above : ∀ path ∈ files ++ dirs, ∀ parent, parent <+: path → parent ≠ path → parent ∈ dirs
  apart : ∀ path ∈ files, path ∉ dirs

/-- The roots of one process, all resolved. -/
structure AgentAccessPolicy where
  projectRoot : Path
  projectsRoot : Path
  agentProfileRoot : Path
  logDir : Path
  claudeProjectsDir : Path
  tempDir : Path

inductive ReadTool where
  | read
  | glob
  | grep
  deriving DecidableEq

/-- `none` allows, a text says why not. -/
abbrev Denial := Option (List Char)

namespace AgentAccessPolicy

variable (policy : AgentAccessPolicy)

def sensitiveFiles : List Path :=
  [policy.projectRoot ++ [".env".toList],
    policy.projectsRoot ++ [".arcreel.db".toList],
    policy.projectsRoot ++ [".system_config.json".toList],
    policy.projectsRoot ++ [".system_config.json.bak".toList],
    policy.agentProfileRoot ++ [".claude".toList, "settings.json".toList]]

def sensitivePrefixes : List Path :=
  [policy.projectsRoot.dropLast ++ ["vertex_keys".toList], policy.logDir]

/-- Parent and stem: the pattern is the stem and a star. -/
def sensitiveGlobs : List (Path × List Char) :=
  [(policy.projectRoot, ".env.".toList), (policy.projectsRoot, ".arcreel.db-".toList)]

def matchesGlob (resolved : Path) (glob : Path × List Char) : Bool :=
  match resolved.relativeTo glob.1 with
  | some [name] => glob.2.isPrefixOf name
  | _ => false

def isSensitivePath (resolved : Path) : Bool :=
  policy.sensitiveFiles.any (resolved == ·) ||
    policy.sensitivePrefixes.any (·.isPrefixOf resolved) ||
    policy.sensitiveGlobs.any (matchesGlob resolved)

def encodeSdkProjectPath (cwd : Path) : List Char :=
  (Path.text cwd).map fun c => if c = '/' ∨ c = '.' then '-' else c

def sdkTmpPrefixes : List (List Char) :=
  [Path.text (policy.tempDir ++ ["claude-".toList]), "/tmp/claude-".toList,
    "/private/tmp/claude-".toList]

/-- The outputs of the SDK's tools and background tasks. -/
def isSdkOutput (cwd resolved : Path) : Bool :=
  ((policy.claudeProjectsDir ++ [encodeSdkProjectPath cwd]).isPrefixOf resolved &&
      resolved.contains "tool-results".toList) ||
    (policy.sdkTmpPrefixes.any (·.isPrefixOf resolved.text) && resolved.contains "tasks".toList)

def crossProject (resolved cwd : Path) : List Char :=
  "访问被拒绝：不允许跨项目读取 (".toList ++ resolved.text ++ " 不在当前项目 ".toList ++ cwd.text ++
    " 内)".toList

def outsideRoot (resolved : Path) : List Char :=
  "访问被拒绝：路径在项目根外 (".toList ++ resolved.text ++ ")".toList

def sensitiveFile (resolved : Path) : List Char :=
  "访问被拒绝：敏感文件不可访问 (".toList ++ resolved.text ++ ")".toList

def invalidPath : List Char := "访问被拒绝：无效的文件路径".toList

def checkReadAccess (tree : FileTree) (resolved cwd : Path) : Denial :=
  if cwd.isPrefixOf resolved then none
  else if policy.isSdkOutput cwd resolved then none
  else
    match resolved.relativeTo policy.projectsRoot with
    | some [] => none
    | some (first :: _) =>
      if policy.projectsRoot ++ [first] ∈ tree.dirs ∧ first ≠ Path.name cwd then
        some (crossProject resolved cwd)
      else none
    | none =>
      if policy.projectRoot.isPrefixOf resolved then none
      else some (outsideRoot resolved)

/-- The reading side of `check_path_access`; it asks the same of every reading tool. -/
def checkPathAccess (tree : FileTree) (filePath : List Char) (_tool : ReadTool) (cwd : Path) :
    Denial :=
  match resolve cwd filePath with
  | none => some invalidPath
  | some resolved =>
    if policy.isSensitivePath resolved then some (sensitiveFile resolved)
    else policy.checkReadAccess tree resolved cwd

end AgentAccessPolicy

end ArcReel.Access
