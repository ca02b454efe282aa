import ArcReel.Lib.JsonText
import ArcReel.Lib.KeyOrder
import Mathlib.Data.List.MinMax
import Mathlib.Data.String.Basic

/-! Structured task failures: a code and its parameters in one text, and how a text that is too
long is cut so that it stays one. -/

namespace ArcReel.Queue.TaskFailure
open ArcReel.Lib

def capabilityFailureCodes : List String :=
  ["image_capability_missing_i2i", "image_capability_missing_t2i", "image_dashscope_4k_t2i_only",
    "image_endpoint_mismatch_no_i2i", "image_endpoint_mismatch_no_t2i",
    "image_reference_images_unreadable", "ref_payload_floor_exceeded",
    "video_capability_missing_t2v", "video_duration_invalid", "video_duration_not_supported",
    "video_end_image_requires_start_image", "video_end_image_unreadable",
    "video_last_frame_requires_pro", "video_last_frame_unsupported", "video_prompt_too_long",
    "video_reference_images_duration_unsupported", "video_reference_images_exceeded",
    "video_reference_images_required", "video_reference_images_unreadable",
    "video_reference_images_unsupported", "video_reference_images_with_frames_unsupported",
    "video_reference_audio_duration_exceeded", "video_reference_audio_exceeded",
    "video_reference_audio_format_unsupported", "video_reference_audio_slots_insufficient",
    "video_reference_audio_unreadable", "video_reference_audio_unsupported",
    "video_resolution_duration_unsupported", "video_start_image_unreadable"]

def referenceProjectionFailureCodes : List String :=
  ["reference_asset_missing", "reference_capability_changed", "reference_capability_unavailable",
    "reference_declaration_invalid", "reference_duration_confirmation_required",
    "reference_supported_durations_incompatible", "reference_supported_durations_invalid",
    "reference_supported_durations_missing", "video_audio_switch_not_supported",
    "video_capability_missing_i2v", "video_capability_missing_r2v",
    "video_capability_reference_unavailable"]

def narrationDeliveryFailureCodes : List String :=
  ["needs_replan", "reference_duration_confirmation_required", "tts_duration_unavailable",
    "tts_generating", "tts_conflicts_with_active_narrated_video", "tts_missing",
    "tts_not_applicable", "tts_not_configured", "tts_stale", "tts_state_unavailable",
    "video_duration_unavailable", "video_shorter_than_tts", "video_supported_durations_missing"]

/-- The keys of `FAILURE_CODE_KEYS`. -/
def failureCodes : List String :=
  capabilityFailureCodes ++ referenceProjectionFailureCodes ++ narrationDeliveryFailureCodes ++
  ["provider_unsupported_media", "dispatch_provider_requeue_failed", "restart_lost_image",
    "restart_lost_audio", "restart_lost_no_job_id", "restart_lost_resume_no_job_id",
    "resume_unsupported_provider", "resume_unsupported_capacity_zero", "resume_unsupported_detail",
    "resume_expired_detail", "resume_endpoint_changed_detail", "restart_lost_checkpoint_no_job_id",
    "execution_identity_unrecoverable", "script_edit_error", "script_edit_items_not_list",
    "script_edit_unit_lists_invalid", "script_edit_generated_assets_invalid",
    "cascade_blocked_dependency"]

/-- A character of `\w`; no known code has one beyond ASCII. -/
def isWord (c : Char) : Bool := c.isAlphanum || c == '_'

/-- `$`: the end of the text, or a line feed that ends it. -/
def atEnd (text : List Char) : Bool := text.isEmpty || text == ['\n']

/-- The group of `[ ](\{.*\})` in front of `$`. -/
def objectGroup : List Char → Option (List Char)
  | ' ' :: '\x7b' :: rest =>
      let body := if rest.getLast? = some '\n' then rest.dropLast else rest
      if body.getLast? = some '\x7d' then some ('\x7b' :: body) else none
  | _ => none

/-- `_STRUCTURED_RE`: the code and the text of the parameters. -/
def structured : List Char → Option (String × Option (List Char))
  | '[' :: rest =>
      let code := rest.takeWhile isWord
      match rest.dropWhile isWord with
      | ']' :: tail =>
          if code.isEmpty then none
          else if atEnd tail then some (String.ofList code, none)
          else (objectGroup tail).map fun object => (String.ofList code, some object)
      | _ => none
  | _ => none

/-- What `encode_failure` writes for a known code. -/
def envelope (json : Json.Module) (code : String) (params : List (String × Json)) : List Char :=
  '[' :: (code.toList ++ (']' ::
    if params.isEmpty then [] else ' ' :: Json.dumps json.floatText (.obj (byKey params))))

/-- `encode_failure`; an unknown code raises. -/
def encodeFailure (json : Json.Module) (code : String) (params : List (String × Json)) :
    Option (List Char) :=
  if code ∈ failureCodes then some (envelope json code params) else none

/-- The dictionary that `json.loads` makes of an object. -/
def loadsDict (json : Json.Module) (text : List Char) : Option (Dict String Json) :=
  match json.loads text with
  | some (.obj fields) => some (Dict.ofEntries fields)
  | _ => none

def parseFailure (json : Json.Module) (text : List Char) : Option (String × Dict String Json) :=
  match structured text with
  | none => none
  | some (code, object) =>
      if code ∈ failureCodes then
        match object with
        | none => some (code, Dict.empty)
        | some object => (loadsDict json object).map fun params => (code, params)
      else none

/-- The text of a container, or an ellipsis if it is nested too deeply. -/
def containerText (json : Json.Module) (value : Json) : List Char :=
  if json.tooDeep value then ['…'] else Json.dumps json.floatText value

/-- `_as_shrinkable`. -/
def asShrinkable (json : Json.Module) : Json → Json
  | .arr items => .str (String.ofList (containerText json (.arr items)))
  | .obj fields => .str (String.ofList (containerText json (.obj fields)))
  | value => value

def textOf : Json → Option String
  | .str value => some value
  | _ => none

/-- The parameters that are strings. -/
def stringParams (params : List (String × Json)) : List (String × String) :=
  params.filterMap fun param => (textOf param.2).map fun value => (param.1, value)

/-- The first of the longest string parameters. -/
def longest (params : List (String × Json)) : Option (String × String) :=
  (stringParams params).argmax fun param => param.2.length

/-- How many characters are cut when the text is too long by `deficit`. -/
def dropCount (deficit length : Nat) : Nat :=
  if deficit < length then deficit else max 1 (length / 2)

/-- The loop of `bound_reason`; the fuel bounds its iterations. -/
def shrink (json : Json.Module) (code : String) (reason : List Char) (limit : Nat) :
    Nat → List (String × Json) → Option (List Char)
  | 0, _ => none
  | fuel + 1, params =>
      let encoded := envelope json code params
      if encoded.length ≤ limit then some encoded
      else
        match longest params with
        | none => some (reason.take limit)
        | some (key, current) =>
            if current.isEmpty then some (reason.take limit)
            else
              let drop := dropCount (encoded.length - limit) current.length
              shrink json code reason limit fuel (Dict.setEntries params key
                (.str (String.ofList (current.toList.take (current.length - drop)))))

def stringTotal (params : List (String × Json)) : Nat :=
  ((stringParams params).map fun param => param.2.length).sum

/-- `bound_reason`; no result would mean that its loop has not ended. -/
def boundReason (json : Json.Module) (reason : List Char) (limit : Nat) : Option (List Char) :=
  if reason.length ≤ limit then some reason
  else
    match structured reason with
    | none => some (reason.take limit)
    | some (code, object) =>
        if code ∈ failureCodes then
          match object.bind (loadsDict json) with
          | none => some (reason.take limit)
          | some parsed =>
              let params := parsed.entries.map fun param => (param.1, asShrinkable json param.2)
              if (stringParams params).isEmpty then some (reason.take limit)
              else shrink json code reason limit (stringTotal params + 1) params
        else some (reason.take limit)

end ArcReel.Queue.TaskFailure
