import Mathlib
import ArcReel.Prompt.Preview

/-! The numbers of images and audios in the first segment against the files of the request. -/

namespace ArcReel.Prompt
open Lib PyText Mention

/-- Membership in lists of texts is decided with one proof here. -/
local instance lawfulCandidate : LawfulBEq (List Char) := inferInstance

section Numbers

variable {α β : Type}

theorem getElem?_numbered (items : List α) (i : Nat) :
    (numbered items)[i]? = items[i]?.map fun item => (i + 1, item) := by
  unfold numbered
  by_cases inside : i < items.length
  · have item := List.getElem?_eq_getElem inside
    have number : (List.range' 1 items.length)[i]? = some (i + 1) := by
      rw [List.getElem?_range' inside, Nat.one_mul, Nat.add_comm]
    rw [item, Option.map_some]
    exact List.getElem?_zip_eq_some.mpr ⟨number, item⟩
  · rw [List.getElem?_eq_none (by simpa using inside), List.getElem?_eq_none (by simpa using inside)]
    rfl

theorem mem_numbered {items : List α} {pair : Nat × α} :
    pair ∈ numbered items ↔ ∃ i, pair.1 = i + 1 ∧ items[i]? = some pair.2 := by
  rw [List.mem_iff_getElem?]
  simp only [getElem?_numbered, Option.map_eq_some_iff]
  constructor
  · rintro ⟨i, item, found, same⟩
    exact ⟨i, by rw [← same], by rw [← same]; exact found⟩
  · rintro ⟨i, number, found⟩
    exact ⟨i, pair.2, found, Prod.ext number.symm rfl⟩

theorem mapM_eq_some_iff {f : α → Option β} {items : List α} {results : List β} :
    items.mapM f = some results ↔ items.map f = results.map some := by
  induction items generalizing results with
  | nil => cases results <;> simp
  | cons item items ih =>
    rw [List.mapM_cons, List.map_cons]
    cases first : f item with
    | none => cases results <;> simp
    | some value =>
      cases rest : items.mapM f with
      | none =>
        cases results with
        | nil => simp
        | cons result results =>
          have apart : items.map f ≠ results.map some := fun same => by
            rw [ih.mpr same] at rest
            cases rest
          simp [apart]
      | some values =>
        have same : items.map f = values.map some := ih.mp rest
        cases results with
        | nil => simp
        | cons result results => simp [same, List.map_inj_right (Option.some_injective _)]

theorem mapM_isSome_iff {f : α → Option β} {items : List α} :
    (items.mapM f).isSome = true ↔ ∀ item ∈ items, (f item).isSome = true := by
  induction items with
  | nil => simp
  | cons item items ih =>
    rw [List.mapM_cons, List.forall_mem_cons, ← ih]
    cases f item with
    | none => simp
    | some value => cases items.mapM f <;> simp

theorem numeral_injective {m n : Nat} (same : numeral m = numeral n) : m = n :=
  Nat.repr_injective (String.toList_injective same)

end Numbers

section Dictionaries

theorem get?_audioNumbers_foldl (pairs : List (Nat × List Char)) (numbers : Dict (List Char) Nat)
    (nodup : (pairs.map Prod.snd).Nodup) (name : List Char) (n : Nat) :
    (pairs.foldl (fun numbers speaker => numbers.set speaker.2 speaker.1) numbers).get? name = some n ↔
      (n, name) ∈ pairs ∨ name ∉ pairs.map Prod.snd ∧ numbers.get? name = some n := by
  induction pairs generalizing numbers with
  | nil => simp
  | cons pair pairs ih =>
    rw [List.map_cons, List.nodup_cons] at nodup
    rw [List.foldl_cons, ih _ nodup.2, Dict.get?_set]
    by_cases same : name = pair.2
    · have absent : (n, pair.2) ∉ pairs := fun member =>
        nodup.1 (List.mem_map.mpr ⟨(n, pair.2), member, rfl⟩)
      have isPair : (n, pair.2) = pair ↔ pair.1 = n := by
        cases pair
        simp [eq_comm]
      rw [same, if_pos rfl, List.mem_cons, isPair]
      simp [absent, nodup.1]
    · have other : (n, name) ≠ pair := fun isPair => same (by rw [← isPair])
      simp [same, other]

/-- A speaker has its position as number. -/
theorem get?_audioNumbers {speakers : List (List Char)} (nodup : speakers.Nodup) (name : List Char)
    (n : Nat) :
    (audioNumbers speakers).get? name = some n ↔ ∃ k, n = k + 1 ∧ speakers[k]? = some name := by
  unfold audioNumbers
  rw [get?_audioNumbers_foldl _ _ (by rw [map_snd_numbered]; exact nodup), mem_numbered]
  simp

theorem get?_imageNo_foldl (pairs : List (Nat × Reference)) (numbers : Dict (List Char) Nat)
    (name : List Char) (n : Nat)
    (found : (pairs.foldl (fun numbers reference => if reference.2.type = .character
      then numbers.set reference.2.name reference.1 else numbers) numbers).get? name = some n) :
    (n, ⟨.character, name⟩) ∈ pairs ∨ numbers.get? name = some n := by
  induction pairs generalizing numbers with
  | nil => exact .inr found
  | cons pair pairs ih =>
    rw [List.foldl_cons] at found
    cases ih _ found with
    | inl later => exact .inl (List.mem_cons_of_mem _ later)
    | inr before =>
      by_cases isCharacter : pair.2.type = .character
      · rw [if_pos isCharacter, Dict.get?_set] at before
        by_cases same : name = pair.2.name
        · rw [if_pos same, Option.some.injEq] at before
          left
          have isPair : (n, (⟨.character, name⟩ : Reference)) = pair := by
            rw [same, ← isCharacter, ← before]
          rw [isPair]
          exact List.mem_cons_self
        · rw [if_neg same] at before
          exact .inr before
      · rw [if_neg isCharacter] at before
        exact .inr before

/-- The number of a character is that of one of its images. -/
theorem get?_characterImageNo {references : List Reference} {name : List Char} {n : Nat}
    (found : (characterImageNo references).get? name = some n) :
    ∃ k, n = k + 1 ∧ references[k]? = some ⟨.character, name⟩ := by
  cases get?_imageNo_foldl _ _ _ _ found with
  | inl member => exact mem_numbered.mp member
  | inr none => simp at none

end Dictionaries

section Bound

variable {u : Unicode} {characters : Dict (List Char) Json} {settings : VoiceRenderSettings}

/-- The speakers that are bound are the first that nothing stands against. -/
theorem bound_bindAudio (images speakers bound : List (List Char)) :
    (bindAudio u characters settings images speakers bound).1 =
      bound ++ (speakers.filter fun speaker =>
        verdict u characters settings images speaker = .candidate).take
          (settings.maxReferenceAudio - bound.length) := by
  induction speakers generalizing bound with
  | nil => simp [bindAudio]
  | cons speaker speakers ih =>
    rw [bindAudio]
    by_cases audio : hasAudio u characters settings speaker = false
    · have against : verdict u characters settings images speaker = .noAudio := by
        rw [verdict, if_pos audio]
      rw [List.filter_cons_of_neg (by simp [against]), if_pos audio]
      exact ih bound
    · rw [if_neg audio]
      by_cases image : (settings.requiresReferenceImage && decide (speaker ∉ images)) = true
      · have against : verdict u characters settings images speaker = .noImage := by
          rw [verdict, if_neg audio, if_pos image]
        rw [List.filter_cons_of_neg (by simp [against]), if_pos image]
        exact ih bound
      · have nothing : verdict u characters settings images speaker = .candidate := by
          rw [verdict, if_neg audio, if_neg image]
        rw [List.filter_cons_of_pos (by simp [nothing]), if_neg image]
        by_cases full : settings.maxReferenceAudio ≤ bound.length
        · have none : settings.maxReferenceAudio - bound.length = 0 := by omega
          rw [if_pos full, none]
          have rest := ih bound
          rw [none] at rest
          simpa using rest
        · obtain ⟨room, isRoom⟩ : ∃ room, settings.maxReferenceAudio - bound.length = room + 1 :=
            ⟨settings.maxReferenceAudio - bound.length - 1, by omega⟩
          rw [if_neg full, ih, isRoom, List.take_succ_cons, List.length_append]
          have less : settings.maxReferenceAudio - (bound.length + [speaker].length) = room := by
            rw [List.length_singleton]
            omega
          rw [less]
          simp

end Bound

section Request

variable (u : Unicode) (audioPath : Json → Option String) (text : List Char) (project : Json)
  (references : List Reference) (settings : VoiceRenderSettings)

/-- The part of a voice declaration that names an audio. -/
def audioPart (n : Nat) : List Char := "台词音色参考 @音频".toList ++ numeral n

/-- The first segment declares the audio of this number for the speaker. -/
def Declares (bindings : VoiceBindings) (name : List Char) (n : Nat) : Prop :=
  settings.isSilent = false ∧ name ∈ bindings.speakers ∧
    (voiceParts (audioNumbers bindings.audioSpeakers) (bucket u project .character) name).head? =
      some (audioPart n)

/-- The numbers of the rendered prompt are those of the request. -/
structure NumbersMatch (rendered : RenderedUnitPrompt) (bindings : VoiceBindings)
    (paths : Dict (List Char) String) (files : List String) (targets : Option (List Nat)) : Prop where
  subjects : ∀ line, line ∈ subjectBindings ((comparedReferences u references).map Reference.name) ↔
    ∃ i reference, references[i]? = some reference ∧ assetNameComparisonKey u reference.name ≠ [] ∧
      line = ['<'] ++ assetNameComparisonKey u reference.name ++ ">@图片".toList ++ numeral (i + 1)
  bounded : files.length ≤ settings.maxReferenceAudio
  own : rendered.audioSpeakers.map paths.get? = files.map some
  declared : ∀ name n, Declares u project settings bindings name n ↔
    ∃ k, n = k + 1 ∧ rendered.audioSpeakers[k]? = some name
  targeted : settings.requiresReferenceImage = true → ∃ indices, targets = some indices ∧
    indices.length = rendered.audioSpeakers.length ∧
    ∀ k index : Nat, indices[k]? = some index → ∃ reference, references[index]? = some reference ∧
      reference.type = .character ∧
      rendered.audioSpeakers[k]? = some (assetNameComparisonKey u reference.name)
  silent : settings.isSilent = true → files = [] ∧ renderVoiceDeclarations bindings.speakers
    (audioNumbers bindings.audioSpeakers) (bucket u project .character) settings = []

/-- The registered speakers for whom some entry of the character table has an audio, and who have
an image where the model wants one. -/
def voiceCandidates : List (List Char) :=
  (registeredSpeakers u project text).filter fun speaker =>
    speaker ∈ (resolveReferenceAudioPaths u audioPath project).keys.map (assetNameComparisonKey u) ∧
      (settings.requiresReferenceImage = true →
        speaker ∈ characterNames (comparedReferences u references))

variable {u audioPath text project references settings}

theorem keyed_compared : ∀ name ∈ (characterImageNo (comparedReferences u references)).keys,
    assetNameComparisonKey u name = name := by
  intro name member
  rw [mem_keys_characterImageNo, mem_characterNames, comparedReferences, List.mem_map] at member
  obtain ⟨reference, -, same⟩ := member
  have isKey : assetNameComparisonKey u reference.name = name := congrArg Reference.name same
  rw [← isKey]
  exact key_key u _

/-- The speakers that the rendering binds. -/
theorem audioSpeakers_eq :
    (renderBindings u text project references
      (executionSettings u audioPath project settings)).audioSpeakers =
      if settings.isSilent = false ∧ settings.voiceConsistency = .native then
        (voiceCandidates u audioPath text project references settings).take
          settings.maxReferenceAudio
      else [] := by
  unfold renderBindings deriveVoiceBindings
  have silence : (executionSettings u audioPath project settings).isSilent = settings.isSilent := rfl
  have level : (executionSettings u audioPath project settings).voiceConsistency =
      settings.voiceConsistency := rfl
  simp only [silence, level]
  by_cases silent : settings.isSilent = true
  · simp [silent]
  · by_cases native : settings.voiceConsistency = .native
    · simp only [silent, native, Bool.false_eq_true, ↓reduceIte, true_and]
      rw [bound_bindAudio, List.nil_append, List.length_nil, Nat.sub_zero]
      have limit : (executionSettings u audioPath project settings).maxReferenceAudio =
          settings.maxReferenceAudio := rfl
      rw [limit]
      apply congrArg (List.take settings.maxReferenceAudio)
      unfold voiceCandidates registeredSpeakers
      apply List.filter_congr
      intro speaker member
      unfold verdict hasAudio executionSettings
      simp only [mem_map_key keyed_compared, mem_keys_characterImageNo]
      by_cases audio : speaker ∈ (resolveReferenceAudioPaths u audioPath project).keys.map
          (assetNameComparisonKey u)
      · cases requires : settings.requiresReferenceImage <;>
          by_cases image : speaker ∈ characterNames (comparedReferences u references) <;>
          simp [audio, image]
      · simp [audio]
    · simp [silent, native]

theorem subjects_match (line : List Char) :
    line ∈ subjectBindings ((comparedReferences u references).map Reference.name) ↔
      ∃ i reference, references[i]? = some reference ∧
        assetNameComparisonKey u reference.name ≠ [] ∧
        line = ['<'] ++ assetNameComparisonKey u reference.name ++ ">@图片".toList ++
          numeral (i + 1) := by
  have labels : (comparedReferences u references).map Reference.name =
      references.map fun reference => assetNameComparisonKey u reference.name := by
    unfold comparedReferences
    rw [List.map_map]
    rfl
  unfold subjectBindings
  rw [labels]
  simp only [List.mem_filterMap, Option.ite_none_left_eq_some, Option.some.injEq]
  constructor
  · rintro ⟨pair, member, named, same⟩
    obtain ⟨i, number, found⟩ := mem_numbered.mp member
    rw [List.getElem?_map, Option.map_eq_some_iff] at found
    obtain ⟨reference, present, isLabel⟩ := found
    refine ⟨i, reference, present, ?_, ?_⟩
    · rw [isLabel]
      simpa using named
    · rw [isLabel, ← same, number]
  · rintro ⟨i, reference, present, named, same⟩
    refine ⟨(i + 1, assetNameComparisonKey u reference.name), ?_, by simpa using named, same.symm⟩
    rw [mem_numbered]
    exact ⟨i, rfl, by rw [List.getElem?_map, present]; rfl⟩

theorem audioPart_injective {m n : Nat} (same : audioPart m = audioPart n) : m = n := by
  unfold audioPart at same
  exact numeral_injective (List.append_cancel_left same)

theorem stylePart_ne (style : List Char) (n : Nat) :
    "声音特征：".toList ++ style ≠ audioPart n := by
  unfold audioPart
  generalize numeral n = digits
  simp

theorem head?_voiceParts (numbers : Dict (List Char) Nat) (characters : Dict (List Char) Json)
    (name : List Char) (n : Nat) :
    (voiceParts numbers characters name).head? = some (audioPart n) ↔ numbers.get? name = some n := by
  unfold voiceParts
  cases numbers.get? name with
  | some m =>
    simp only [Option.map_some, Option.toList_some, List.cons_append, List.head?_cons,
      Option.some.injEq]
    constructor
    · intro same
      exact audioPart_injective same
    · intro same
      rw [same]
      rfl
  | none =>
    rw [Option.map_none, Option.toList_none, List.nil_append]
    by_cases plain : voiceStyle characters name = []
    · rw [if_pos plain]
      simp
    · rw [if_neg plain, List.head?_cons, Option.some.injEq]
      simp only [stylePart_ne, reduceCtorEq]

theorem nodup_voiceCandidates : (voiceCandidates u audioPath text project references settings).Nodup :=
  ((nodup_firstSeen _).filter _).filter _

/-- What is known of a speaker that is bound. -/
theorem speakers_deriveVoiceBindings (characters : Dict (List Char) Json) (settings : VoiceRenderSettings)
    (utterances : List ShotUtterance) (images : List (List Char)) :
    (deriveVoiceBindings u characters settings utterances images).speakers =
      (speakersOf u utterances).filter fun speaker => (characters.get? speaker).isSome := by
  unfold deriveVoiceBindings
  split_ifs <;> rfl

theorem audioSpeakers_spec {name : List Char}
    (member : name ∈ (renderBindings u text project references
      (executionSettings u audioPath project settings)).audioSpeakers) :
    settings.isSilent = false ∧
      name ∈ (renderBindings u text project references
        (executionSettings u audioPath project settings)).speakers ∧
      (settings.requiresReferenceImage = true →
        name ∈ characterNames (comparedReferences u references)) := by
  rw [audioSpeakers_eq] at member
  split at member
  next loud =>
    have inside := List.mem_filter.mp (List.mem_of_mem_take member)
    simp only [decide_eq_true_eq] at inside
    refine ⟨loud.1, ?_, inside.2.2⟩
    have listed : (renderBindings u text project references
        (executionSettings u audioPath project settings)).speakers =
        registeredSpeakers u project text :=
      speakers_deriveVoiceBindings _ _ _ _
    rw [listed]
    exact inside.1
  next => cases member

theorem nodup_audioSpeakers : (renderBindings u text project references
    (executionSettings u audioPath project settings)).audioSpeakers.Nodup := by
  rw [audioSpeakers_eq]
  split_ifs
  · exact nodup_voiceCandidates.sublist (List.take_sublist _ _)
  · exact List.nodup_nil

/-- The audio of a number is declared for the speaker at that position. -/
theorem declares_iff (name : List Char) (n : Nat) :
    Declares u project settings (renderBindings u text project references
      (executionSettings u audioPath project settings)) name n ↔
      ∃ k, n = k + 1 ∧ (renderBindings u text project references
        (executionSettings u audioPath project settings)).audioSpeakers[k]? = some name := by
  unfold Declares
  rw [head?_voiceParts, get?_audioNumbers nodup_audioSpeakers]
  constructor
  · intro declared
    exact declared.2.2
  · rintro ⟨k, number, found⟩
    have spec := audioSpeakers_spec (List.mem_of_getElem? found)
    exact ⟨spec.1, spec.2.1, k, number, found⟩

/-- The position of the image of each bound speaker, where every audio has an image. -/
theorem audioReferenceIndex_eq {speakers : List (List Char)}
    (imaged : ∀ name ∈ speakers, name ∈ characterNames (comparedReferences u references)) :
    ∃ indices : List Nat,
      audioReferenceIndex speakers (characterImageNo (comparedReferences u references)) =
        indices.map some ∧ indices.length = speakers.length ∧
      ∀ k index : Nat, indices[k]? = some index → ∃ reference, references[index]? = some reference ∧
        reference.type = .character ∧
        speakers[k]? = some (assetNameComparisonKey u reference.name) := by
  induction speakers with
  | nil => exact ⟨[], rfl, rfl, fun k index found => by simp at found⟩
  | cons speaker speakers ih =>
    obtain ⟨indices, rest, length, targets⟩ := ih fun name member =>
      imaged name (List.mem_cons_of_mem _ member)
    have known := imaged speaker List.mem_cons_self
    rw [← mem_keys_characterImageNo, Dict.mem_keys_iff] at known
    obtain ⟨n, found⟩ := known
    obtain ⟨image, number, present⟩ := get?_characterImageNo found
    rw [comparedReferences, List.getElem?_map, Option.map_eq_some_iff] at present
    obtain ⟨reference, inRequest, same⟩ := present
    refine ⟨image :: indices, ?_, by simp [length], ?_⟩
    · rw [audioReferenceIndex, List.map_cons, found, number]
      rw [audioReferenceIndex] at rest
      rw [rest]
      rfl
    · intro k index at_
      cases k with
      | zero =>
        rw [List.getElem?_cons_zero, Option.some.injEq] at at_
        rw [← at_]
        have named : assetNameComparisonKey u reference.name = speaker := congrArg Reference.name same
        exact ⟨reference, inRequest, congrArg Reference.type same, by
          rw [List.getElem?_cons_zero, named]⟩
      | succ k =>
        rw [List.getElem?_cons_succ] at at_
        obtain ⟨target, present, isCharacter, spoken⟩ := targets k index at_
        exact ⟨target, present, isCharacter, by rw [List.getElem?_cons_succ]; exact spoken⟩

theorem filterMap_zip_some {α β : Type} (names : List α) (indices : List β) :
    (names.zip (indices.map some)).filterMap (fun pair => pair.2.map fun index => (pair.1, index)) =
      names.zip indices := by
  induction names generalizing indices with
  | nil => rfl
  | cons name names ih =>
    cases indices with
    | nil => rfl
    | cons index indices =>
      rw [List.map_cons, List.zip_cons_cons, List.zip_cons_cons, ← ih indices]
      rfl

/-- Where every audio has an image no speaker is left out. -/
theorem wiring_eq (rendered : RenderedUnitPrompt) (paths : Dict (List Char) String)
    {indices : List Nat} (index : rendered.audioSpeakerReferenceIndex = indices.map some)
    (length : indices.length = rendered.audioSpeakers.length) :
    buildReferenceAudioWiring rendered paths true =
      (rendered.audioSpeakers.mapM paths.get?).map fun files => (files, some indices) := by
  unfold buildReferenceAudioWiring
  rw [if_pos rfl, index]
  simp only [filterMap_zip_some]
  have targets : (rendered.audioSpeakers.zip indices).map Prod.snd = indices :=
    List.map_snd_zip (by omega)
  have names : (rendered.audioSpeakers.zip indices).map Prod.fst = rendered.audioSpeakers :=
    List.map_fst_zip (by omega)
  have files : (rendered.audioSpeakers.zip indices).mapM (fun pair => paths.get? pair.1) =
      rendered.audioSpeakers.mapM paths.get? := by
    conv_rhs => rw [← names]
    rw [List.mapM_map]
    rfl
  rw [targets, files]

end Request

/-- The character that speaks has no audio; an entry with a space before the name has one. -/
private def spacedProject : Json :=
  .obj [("characters", .obj [("甲", .obj []),
    (" 甲", .obj [("reference_audio", .str "characters/refs_audio/a.wav")])])]

private def spacedSettings : VoiceRenderSettings := ⟨.native, true, 5, "m".toList, none, false⟩

private def spacedText : List Char := "@[甲]：\x7b你好\x7d".toList

end ArcReel.Prompt
