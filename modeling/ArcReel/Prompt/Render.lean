import ArcReel.Prompt.Voice

/-! The prompt of a reference video unit in three segments, and the reference audio of its
request. -/

namespace ArcReel.Prompt
open Lib PyText Mention

structure RenderedUnitPrompt where
  prompt : List Char
  audioSpeakers : List (List Char)
  audioSpeakerReferenceIndex : List (Option Nat)
  warnings : List Warning

section Segments

variable (u : Unicode)

/-- The number of the image of each character; of several images the last one. -/
def characterImageNo (references : List Reference) : Dict (List Char) Nat :=
  (numbered references).foldl (fun numbers reference =>
    if reference.2.type = .character then numbers.set reference.2.name reference.1 else numbers) .empty

def audioNumbers (audioSpeakers : List (List Char)) : Dict (List Char) Nat :=
  (numbered audioSpeakers).foldl (fun numbers speaker => numbers.set speaker.2 speaker.1) .empty

/-- The position of the image of each bound speaker. -/
def audioReferenceIndex (audioSpeakers : List (List Char)) (imageNo : Dict (List Char) Nat) :
    List (Option Nat) := audioSpeakers.map fun name => (imageNo.get? name).map (· - 1)

def voiceStyle (characters : Dict (List Char) Json) (name : List Char) : List Char :=
  match characters.get? name with
  | some (.obj fields) =>
    let value := (Json.obj fields).get "voice_style"
    if value.truthy then strip (value.str?.elim [] String.toList) else []
  | _ => []

/-- The parts of one voice declaration. -/
def voiceParts (audioNo : Dict (List Char) Nat) (characters : Dict (List Char) Json)
    (name : List Char) : List (List Char) :=
  ((audioNo.get? name).map fun n => "台词音色参考 @音频".toList ++ numeral n).toList ++
    (if voiceStyle characters name = [] then []
    else ["声音特征：".toList ++ voiceStyle characters name])

def renderVoiceDeclarations (speakers : List (List Char)) (audioNo : Dict (List Char) Nat)
    (characters : Dict (List Char) Json) (settings : VoiceRenderSettings) : List (List Char) :=
  if settings.isSilent then []
  else speakers.filterMap fun name =>
    let parts := voiceParts audioNo characters name
    if parts.isEmpty then none
    else some (['<'] ++ name ++ ">的".toList ++ List.intercalate ['，'] parts ++ ['。'])

/-- The subject bindings; an empty label keeps its number and is left out. -/
def subjectBindings (labels : List (List Char)) : List (List Char) :=
  (numbered labels).filterMap fun label =>
    if label.2.isEmpty then none
    else some (['<'] ++ label.2 ++ ">@图片".toList ++ numeral label.1)

def renderSegmentOne (labels speakers : List (List Char)) (audioNo : Dict (List Char) Nat)
    (characters : Dict (List Char) Json) (settings : VoiceRenderSettings) : List Char :=
  let bindings := List.intercalate ['、'] (subjectBindings labels)
  joinLines ((if bindings.isEmpty then [] else [bindings ++ ['。']]) ++
    renderVoiceDeclarations speakers audioNo characters settings)

/-- One line of a shot in the second segment. -/
def renderLine (subjects : List (List Char)) (characters : Dict (List Char) Json)
    (line : List Char) : List Char :=
  let spoken (who text : List Char) : List Char := who ++ "说 \x7b".toList ++ text ++ ['\x7d']
  let other := match matchVoiceoverLine u line with
    | some text => spoken "画外音".toList text
    | none => renderMentionsAsSubjects u subjects line
  match matchDialogueLine u line with
  | some (speaker, text) =>
    if (characters.get? speaker).isSome then spoken (['<'] ++ speaker ++ ['>']) text else other
  | none => other

/-- The lines of one shot that are not blank. -/
def renderBody (subjects : List (List Char)) (characters : Dict (List Char) Json)
    (shot : List Char) : List (List Char) :=
  ((splitlines shot).map (renderLine u subjects characters)).filter fun line => !isBlank line

def renderSegmentTwo (shots subjects : List (List Char)) (characters : Dict (List Char) Json) :
    List Char :=
  List.intercalate "\n\n".toList ((numbered shots).map fun shot =>
    let text := joinLines (renderBody u subjects characters shot.2)
    let header := "镜头".toList ++ numeral shot.1 ++ ['：']
    if text.isEmpty then header else header ++ ['\n'] ++ text)

/-- `^画风[：:]\s*` -/
def stylePrefixRe : Regex :=
  .seq .atStart (.seq (literal '画') (.seq (literal '风') (.seq (.char isColon) (.star isSpace))))

def normalizeStyle (style : Option (List Char)) : List Char :=
  stylePrefixRe.remove (strip (style.getD []))

def renderSegmentThree (characterReferenceCount : Nat) (style : Option (List Char)) : List Char :=
  let normalized := normalizeStyle style
  joinLines ((if normalized.isEmpty then [] else ["整体视觉风格：".toList ++ normalized ++ ['。']]) ++
    ["高清，细节丰富，电影质感，色彩自然，光影柔和。人物面部稳定不变形、五官清晰、动作连贯自然，不僵硬，无穿模无卡顿。".toList,
      "保持无字幕，避免生成任何文字或字幕。不要生成水印；不要生成 Logo。禁止出现背景音乐。".toList] ++
    (if 2 ≤ characterReferenceCount then
      ["视频全程禁止出现外形、着装、配饰完全一致的人物，禁止生成同款分身、双胞胎效果，同一画面中仅保留单个对应人物，不出现人物重复复刻。".toList]
    else []))

/-- The references with their names as they are compared. -/
def comparedReferences (references : List Reference) : List Reference :=
  references.map fun reference => ⟨reference.type, assetNameComparisonKey u reference.name⟩

/-- The voice bindings of a rendering; `references` are those that go out with the request. -/
def renderBindings (text : List Char) (project : Json) (references : List Reference)
    (settings : VoiceRenderSettings) : VoiceBindings :=
  deriveVoiceBindings u (bucket u project .character) settings
    (deriveUtterances u (parsePrompt u text).1).1
    (characterImageNo (comparedReferences u references)).keys

def renderUnitPrompt (text : List Char) (project : Json) (references : List Reference)
    (settings : VoiceRenderSettings) (style : Option (List Char)) : RenderedUnitPrompt :=
  let (shots, mentions) := parsePrompt u text
  let syntaxWarnings := (deriveUtterances u shots).2
  let compared := comparedReferences u references
  let (registered, missing) := resolveReferences u mentions project
  let characters := bucket u project .character
  let bindings := renderBindings u text project references settings
  let segments := [
    renderSegmentOne (compared.map Reference.name) bindings.speakers
      (audioNumbers bindings.audioSpeakers) characters settings,
    renderSegmentTwo u shots (registered.map Reference.name) characters,
    renderSegmentThree (compared.filter (·.type = .character)).length style]
  { prompt := List.intercalate "\n\n".toList (segments.filter fun segment => !segment.isEmpty)
    audioSpeakers := bindings.audioSpeakers
    audioSpeakerReferenceIndex :=
      audioReferenceIndex bindings.audioSpeakers (characterImageNo compared)
    warnings := missing.map .unregisteredMention ++ syntaxWarnings ++ bindings.warnings }

/-- The characters whose reference audio is there; `audioPath` is `resolve_audio_ref_path`. -/
def resolveReferenceAudioPaths (audioPath : Json → Option String) (project : Json) :
    Dict (List Char) String :=
  ((bucket u project .character).filter fun _ item =>
    item.isObj && (audioPath (item.get "reference_audio")).isSome).mapValues fun _ item =>
      (audioPath (item.get "reference_audio")).getD ""

/-- The audio files of the request and, where the backend wants it, the image of each; `none` is
a `KeyError`. -/
def buildReferenceAudioWiring (rendered : RenderedUnitPrompt) (audioPaths : Dict (List Char) String)
    (referenceAudioPerImage : Bool) : Option (List String × Option (List Nat)) :=
  if referenceAudioPerImage then
    let paired := (rendered.audioSpeakers.zip rendered.audioSpeakerReferenceIndex).filterMap
      fun speaker => speaker.2.map fun index => (speaker.1, index)
    (paired.mapM fun speaker => audioPaths.get? speaker.1).map fun files =>
      (files, some (paired.map Prod.snd))
  else (rendered.audioSpeakers.mapM audioPaths.get?).map fun files => (files, none)

end Segments

end ArcReel.Prompt
