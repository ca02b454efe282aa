import ArcReel.Lib.KeyOrder
import Mathlib.Data.String.Basic

/-! Snapshots of a project, and the changes between two of them. -/

namespace ArcReel.Events
open ArcReel.Lib

inductive SkeletonKind where
  | segments
  | scenes
  | shots
  | videoUnits
  deriving DecidableEq, Repr

namespace SkeletonKind

def itemNoun : SkeletonKind → String
  | segments => "分镜"
  | scenes => "场景"
  | shots => "镜头"
  | videoUnits => "视频单元"

def entityType : SkeletonKind → String
  | segments => "segment"
  | scenes => "drama_scene"
  | shots => "shot"
  | videoUnits => "reference_unit"

def anchorType : SkeletonKind → String
  | segments | scenes | shots => "segment"
  | videoUnits => "reference_unit"

end SkeletonKind

structure Focus where
  pane : String
  episode : Option Int := none
  anchorType : String
  anchorId : String
  deriving DecidableEq, Repr

structure Change where
  entityType : String
  action : String
  entityId : String
  label : String
  focus : Option Focus
  important : Bool
  scriptFile : Option String := none
  episode : Option Int := none
  deriving DecidableEq, Repr

abbrev Identity := String × String × String

def equivalentAction (action : String) : String :=
  if action = "reference_video_ready" then "video_ready" else action

def changeIdentity (change : Change) : Identity :=
  (change.entityType, equivalentAction change.action, change.entityId)

/-- An item of a script; `body` is all that is compared besides the assets. -/
structure Item (β : Type) where
  storyboardImage : String
  videoClip : String
  body : β
  deriving DecidableEq, Repr

structure Script (β : Type) where
  episode : Option Int
  kind : SkeletonKind
  items : Dict String (Item β)
  deriving DecidableEq, Repr

structure EpisodeEntry where
  episode : Int
  title : String
  scriptFile : String
  deriving DecidableEq, Repr

structure Snapshot (β : Type) where
  projectMeta : β
  characters : Dict String β
  scenes : Dict String β
  props : Dict String β
  overview : β
  episodes : Dict Int EpisodeEntry
  scripts : Dict String (Script β)
  deriving DecidableEq, Repr

section Diff

variable {κ ν β : Type} [LinearOrder κ] [DecidableEq ν] [DecidableEq β]

def sorted (keys : List κ) : List κ := keys.insertionSort fun a b => a ≤ b

/-- `sorted(set(current) - set(previous))`. -/
def onlyIn (current previous : Dict κ ν) : List κ :=
  sorted (current.keys.filter fun key => key ∉ previous.keys)

/-- The keys of both, in order, with their two values. -/
def inBoth (previous current : Dict κ ν) : List (κ × ν × ν) :=
  (sorted (previous.keys.filter fun key => key ∈ current.keys)).filterMap fun key =>
    (previous.get? key).bind fun old => (current.get? key).map fun new => (key, old, new)

/-- An empty `script_file` is left out. -/
def filled (scriptFile : String) : Option String := if scriptFile = "" then none else some scriptFile

def namedChange (entityType pane action : String) (shown important : Bool) (name : String) : Change where
  entityType := entityType
  action := action
  entityId := name
  label := (if entityType = "character" then "角色" else "线索") ++ "「" ++ name ++ "」"
  focus := if shown then some { pane, anchorType := entityType, anchorId := name } else none
  important := important

def diffNamedEntities (entityType pane : String) (previous current : Dict String ν) : List Change :=
  (onlyIn current previous).map (namedChange entityType pane "created" true true) ++
    (onlyIn previous current).map (namedChange entityType pane "deleted" false false) ++
    (inBoth previous current).filterMap fun (name, old, new) =>
      if old = new then none else some (namedChange entityType pane "updated" true true name)

def episodeChange (action : String) (key : Int) (entry : EpisodeEntry) : Change where
  entityType := "episode"
  action := action
  entityId := toString key
  label := "第 " ++ toString entry.episode ++ " 集"
  focus := none
  important := true
  scriptFile := filled entry.scriptFile
  episode := some entry.episode

/-- An episode that is no longer there is not a change. -/
def diffEpisodes (previous current : Dict Int EpisodeEntry) : List Change :=
  ((onlyIn current previous).filterMap fun key =>
      (current.get? key).map (episodeChange "created" key)) ++
    (inBoth previous current).filterMap fun (key, old, new) =>
      if old = new then none else some (episodeChange "updated" key new)

def itemChange (action scriptFile : String) (script : Script β) (shown important : Bool)
    (itemId : String) : Change where
  entityType := script.kind.entityType
  action := action
  entityId := itemId
  label := script.kind.itemNoun ++ "「" ++ itemId ++ "」"
  focus :=
    if shown then
      some { pane := "episode", episode := script.episode, anchorType := script.kind.anchorType,
             anchorId := itemId }
    else none
  important := important
  scriptFile := filled scriptFile
  episode := script.episode

def becameTruthy (previous current : String) : Bool := current ≠ "" && previous = ""

def diffItem (scriptFile : String) (script : Script β) (itemId : String) (old new : Item β) :
    List Change :=
  (if becameTruthy old.storyboardImage new.storyboardImage then
      [itemChange "storyboard_ready" scriptFile script true true itemId] else []) ++
    (if becameTruthy old.videoClip new.videoClip then
      [itemChange "video_ready" scriptFile script true true itemId] else []) ++
    (if old.body ≠ new.body then [itemChange "updated" scriptFile script true true itemId] else [])

def diffScript (scriptFile : String) (previous current : Script β) : List Change :=
  (onlyIn current.items previous.items).map (itemChange "created" scriptFile current true true) ++
    (onlyIn previous.items current.items).map (itemChange "deleted" scriptFile previous false false) ++
    (inBoth previous.items current.items).flatMap fun (itemId, old, new) =>
      diffItem scriptFile current itemId old new

/-- Only the items of scripts that are in both snapshots are compared. -/
def diffScriptItems (previous current : Dict String (Script β)) : List Change :=
  (inBoth previous current).flatMap fun (scriptFile, old, new) => diffScript scriptFile old new

def projectChange (entity label : String) : Change where
  entityType := entity
  action := "updated"
  entityId := entity
  label := label
  focus := none
  important := false

def diffSnapshots (previous current : Snapshot β) : List Change :=
  diffNamedEntities "character" "characters" previous.characters current.characters ++
    diffNamedEntities "scene" "scenes" previous.scenes current.scenes ++
    diffNamedEntities "prop" "props" previous.props current.props ++
    (if previous.projectMeta ≠ current.projectMeta then [projectChange "project" "项目设置"] else []) ++
    (if previous.overview ≠ current.overview then [projectChange "overview" "项目概览"] else []) ++
    diffEpisodes previous.episodes current.episodes ++
    diffScriptItems previous.scripts current.scripts

end Diff

end ArcReel.Events
