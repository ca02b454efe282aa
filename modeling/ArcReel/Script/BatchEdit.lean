import ArcReel.Lib.Dict
import ArcReel.Script.Editor

/-! `lib.script_batch_edit`: the four operations of a batch, over the script in memory and the
items that the batch has removed. -/

namespace ArcReel.Script
open ArcReel.Lib

inductive Operation where
  | update (id : String) (fields : List (String × Json))
  | insertAfter (afterId : Option String) (item : List (String × Json))
  | moveAfter (id : String) (afterId : Option String)
  | remove (id : String)

/-- What a batch has reached: the candidate, and the items it has removed, by id. -/
structure Candidate where
  script : Json
  removed : Dict String Json

section Operations

variable {π : Type} (rt : Runtime π) (project : Json)

def orRaise {α : Type} : Option α → Except EditError α
  | some value => .ok value
  | none => .error .raised

def admitScriptUnit (kind : Kind) (unit : Json) (ignoreMarker : Bool) :
    Except EditError (SpeechAdmission π) :=
  orRaise (rt.prepare kind.key (if ignoreMarker then unit.del "needs_replan" else unit))

/-- `_admission_for`. -/
def admissionFor (script : Json) (id : String) : Except EditError (Option (SpeechAdmission π)) := do
  let (items, kind) ← resolveItems script
  match items.find? (isItem rt kind.idField id) with
  | some item => do
      let admission ← admitScriptUnit rt kind item false
      .ok (some admission)
  | none => .ok none

/-- `_rederive_video_unit_references`. -/
def rederiveReferences (item : Json) : Except EditError Json :=
  match item.get "shots" with
  | .arr shots => do
      let references ← orRaise (rt.referencesOf (.arr shots) project)
      .ok (item.put "references" references)
  | _ => .ok item

def rederiveWhen (stale : Bool) (item : Json) : Except EditError Json :=
  if stale then rederiveReferences rt project item else .ok item

/-- A positive `int`. -/
def isDuration (value : Json) : Bool := value.int?.any fun n => decide (0 < n)

def refreshReplanState (unit : Json) (allowClear contentChanged : Bool) : Except EditError Json := do
  let unit := if contentChanged then unit.del "migration_requires_content_replan" else unit
  match unit.get "migration_requires_content_replan" with
  | .bool true => .ok (unit.put "needs_replan" (.bool true))
  | _ =>
      if !(unit.get "shots").truthy || !isDuration (unit.get "duration_seconds") then
        .ok (unit.put "needs_replan" (.bool true))
      else do
        let admission ← admitScriptUnit rt .videoUnits unit true
        if !admission.problems.isEmpty then .ok (unit.put "needs_replan" (.bool true))
        else if allowClear then .ok (unit.del "needs_replan")
        else .ok unit

def pathRoot (path : String) : String := (pathParts path).headD ""

variable [DecidableEq π]

/-- The marker and the references of an item whose fields were set; `item` is the item before. -/
def settleUpdate (kind : Kind) (roots : List String) (content : SpeechAdmission π)
    (item patched : Json) : Except EditError Json :=
  match kind with
  | .videoUnits => do
      let bodyChanged := roots.contains "shots" && !rt.equal (patched.get "shots") (item.get "shots")
      let patched ← rederiveWhen rt project (bodyChanged && !roots.contains "references") patched
      let referencesChanged := roots.contains "references" &&
        !rt.equal (patched.get "references") (item.get "references")
      if ["shots", "references", "duration_seconds"].any fun root => roots.contains root then
        refreshReplanState rt patched
          (bodyChanged || referencesChanged || roots.contains "duration_seconds") bodyChanged
      else .ok patched
  | _ => do
      let after ← admitScriptUnit rt kind patched true
      if after.preparation ≠ content.preparation ∧ after.problems = [] then
        .ok (patched.del "needs_replan")
      else .ok patched

/-- Where an item goes that is put after an anchor, or in front. -/
def insertPlace (items : List Json) (idField : String) (afterId : Option String) :
    Except EditError Nat :=
  match afterId with
  | none => .ok 0
  | some anchor => do
      let index ← findIndex rt items idField anchor
      .ok (index + 1)

/-- The media of an inserted item: those of the removed item of its id, if there is one. -/
def restoreMedia (removed : Option Json) (item : Json) : Json :=
  match removed with
  | none => (item.put "generated_assets" (.obj [])).del "end_frame_image"
  | some old =>
      let assets := old.get "generated_assets"
      let item := item.put "generated_assets" (if assets.isObj then assets else .obj [])
      if (old.get "end_frame_image").isNull then item.del "end_frame_image"
      else item.put "end_frame_image" (old.get "end_frame_image")

def settleInsert (kind : Kind) (item : Json) : Except EditError Json :=
  match kind with
  | .videoUnits => do
      let item ← rederiveWhen rt project (!item.has "references") item
      refreshReplanState rt item true true
  | _ => .ok item

/-- The id of an item to insert. -/
def insertedId (idField : String) (item : Json) : Except EditError String :=
  match item.get idField with
  | .str id => if id = "" then .error (.missingItemId idField) else .ok id
  | _ => .error (.missingItemId idField)

/-- An id, the admission before and the admission after. -/
abbrev Touched (π : Type) : Type :=
  String × Option (SpeechAdmission π) × Option (SpeechAdmission π)

def applyUpdate (candidate : Candidate) (id : String) (fields : List (String × Json)) :
    Except EditError (Touched π × Candidate) := do
  let before ← admissionFor rt candidate.script id
  let (items, kind) ← resolveItems candidate.script
  let index ← findIndex rt items kind.idField id
  let item := items[index]?.getD .null
  let content ← admitScriptUnit rt kind item true
  let script ← fields.foldlM (fun script field => patchField rt script id field.1 field.2)
    candidate.script
  let (patched, _) ← resolveItems script
  let settled ← settleUpdate rt project kind (fields.map fun field => pathRoot field.1) content item
    (patched[index]?.getD .null)
  let script := storeItems script kind (patched.set index settled)
  let after ← admissionFor rt script id
  .ok ((id, before, after), { candidate with script := script })

def applyInsert (candidate : Candidate) (afterId : Option String) (item : List (String × Json)) :
    Except EditError (Touched π × Candidate) := do
  let (items, kind) ← resolveItems candidate.script
  let id ← insertedId kind.idField (.obj item)
  if items.any (isItem rt kind.idField id) then throw (.duplicateId id)
  let place ← insertPlace rt items kind.idField afterId
  let item ← settleInsert rt project kind (restoreMedia (candidate.removed.get? id) (.obj item))
  let script := storeItems candidate.script kind (items.insertIdx place item)
  let after ← admissionFor rt script id
  .ok ((id, none, after), ⟨script, candidate.removed.erase id⟩)

def applyMove (candidate : Candidate) (id : String) (afterId : Option String) :
    Except EditError (Touched π × Candidate) := do
  if afterId = some id then throw (.ownAnchor id)
  let (items, kind) ← resolveItems candidate.script
  let source ← findIndex rt items kind.idField id
  let before ← admissionFor rt candidate.script id
  let item := items[source]?.getD .null
  let place ← insertPlace rt (items.eraseIdx source) kind.idField afterId
  let script := storeItems candidate.script kind ((items.eraseIdx source).insertIdx place item)
  let after ← admissionFor rt script id
  .ok ((id, before, after), { candidate with script := script })

def applyRemove (candidate : Candidate) (id : String) :
    Except EditError (Touched π × Candidate) := do
  let (items, kind) ← resolveItems candidate.script
  let index ← findIndex rt items kind.idField id
  let before ← admissionFor rt candidate.script id
  .ok ((id, before, none), ⟨storeItems candidate.script kind (items.eraseIdx index),
    candidate.removed.set id (items[index]?.getD .null)⟩)

/-- `_apply_operation`. -/
def applyOperation (candidate : Candidate) : Operation → Except EditError (Touched π × Candidate)
  | .update id fields => applyUpdate rt project candidate id fields
  | .insertAfter afterId item => applyInsert rt project candidate afterId item
  | .moveAfter id afterId => applyMove rt candidate id afterId
  | .remove id => applyRemove rt candidate id

/-- The operations of a batch in sequence; nothing is removed at first. -/
def applyOperations (script : Json) (operations : List Operation) : Except EditError Candidate :=
  operations.foldlM (fun candidate operation => do
    let (_, next) ← applyOperation rt project candidate operation
    .ok next) ⟨script, .empty⟩

end Operations

end ArcReel.Script
