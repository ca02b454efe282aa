import ArcReel.Mention.Lines
import ArcReel.Prompt.Render

/-! The voice warnings of the preview panel against those of the rendering that is executed. -/

namespace ArcReel.Prompt
open Lib PyText Mention

/-- Membership in lists of texts is decided with one proof here. -/
local instance lawfulSpeaker : LawfulBEq (List Char) := inferInstance

/-- `derive_references_from_text`. -/
def deriveReferencesFromText (u : Unicode) (text : List Char) (project : Json) :
    List Reference × List (List Char) := resolveReferences u (extractMentions u text) project

/-- The references as a unit stores them. -/
def storedReferences (references : List Reference) : Json :=
  .arr (references.map fun reference => .obj [("type", .str reference.type.label),
    ("name", .str (String.ofList reference.name))])

section Stored

variable {u : Unicode}

theorem label_injective {first second : AssetType} (same : first.label = second.label) :
    first = second := by
  cases first <;> cases second <;> first | rfl | (revert same; decide)

/-- The references have names as they are compared, none of them empty. -/
def Named (u : Unicode) (references : List Reference) : Prop :=
  ∀ reference ∈ references, assetNameComparisonKey u reference.name = reference.name ∧
    reference.name ≠ []

theorem declaredOf_stored (type : AssetType) (reference : Reference)
    (key : assetNameComparisonKey u reference.name = reference.name) (named : reference.name ≠ []) :
    declaredOf u type (.obj [("type", .str reference.type.label),
      ("name", .str (String.ofList reference.name))]) =
      if reference.type = type then some reference else none := by
  have typeField : (Json.obj [("type", .str reference.type.label),
      ("name", .str (String.ofList reference.name))]).get "type" = .str reference.type.label := rfl
  have nameField : (Json.obj [("type", .str reference.type.label),
      ("name", .str (String.ofList reference.name))]).get "name" =
      .str (String.ofList reference.name) := rfl
  simp only [declaredOf, typeField, nameField, Json.str?, String.toList_ofList, key]
  by_cases same : reference.type = type
  · subst same
    simp [named]
  · have labels : reference.type.label ≠ type.label := fun equal => same (label_injective equal)
    simp [same, labels]

theorem filterMap_declaredOf (type : AssetType) {references : List Reference}
    (named : Named u references) :
    (references.map fun reference => Json.obj [("type", .str reference.type.label),
      ("name", .str (String.ofList reference.name))]).filterMap (declaredOf u type) =
      references.filter (·.type = type) := by
  induction references with
  | nil => rfl
  | cons reference references ih =>
    have first := named reference List.mem_cons_self
    have rest := ih fun other member => named other (List.mem_cons_of_mem _ member)
    rw [List.map_cons, List.filterMap_cons, declaredOf_stored type reference first.1 first.2, rest]
    by_cases same : reference.type = type <;> simp [same]

/-- By type, in the order in which they are mentioned. -/
theorem canonicalize_stored {references : List Reference} (named : Named u references)
    (nodup : references.Nodup) :
    canonicalizeReferences u (storedReferences references) =
      AssetType.all.flatMap fun type => references.filter (·.type = type) := by
  have sorted : (AssetType.all.flatMap fun type => references.filter (·.type = type)).Nodup := by
    rw [List.nodup_flatMap]
    refine ⟨fun type _ => nodup.filter _, ?_⟩
    have apart : ∀ first second : AssetType, first ≠ second →
        List.Disjoint (references.filter (·.type = first)) (references.filter (·.type = second)) := by
      intro first second different reference inFirst inSecond
      have typed := (List.mem_filter.mp inFirst).2
      have typed' := (List.mem_filter.mp inSecond).2
      simp only [decide_eq_true_eq] at typed typed'
      exact different (typed.symm.trans typed')
    unfold AssetType.all
    simp only [List.pairwise_cons, List.mem_cons, List.not_mem_nil, or_false, forall_eq_or_imp,
      forall_eq, Function.onFun]
    exact ⟨⟨apart _ _ (by decide), apart _ _ (by decide), apart _ _ (by decide)⟩,
      ⟨apart _ _ (by decide), apart _ _ (by decide)⟩, apart _ _ (by decide), by simp, List.Pairwise.nil⟩
  unfold canonicalizeReferences storedReferences
  simp only [filterMap_declaredOf _ named]
  exact firstSeen_of_nodup sorted

theorem named_of_mem_resolve {names : List (List Char)} {project : Json} {reference : Reference}
    (member : reference ∈ (resolveReferences u names project).1) :
    assetNameComparisonKey u reference.name = reference.name := by
  simp only [resolveReferences, List.mem_filterMap, Option.map_eq_some_iff] at member
  obtain ⟨name, seen, type, -, same⟩ := member
  rw [← same]
  obtain ⟨raw, -, keyed⟩ := List.mem_map.mp (mem_firstSeen.mp seen)
  rw [← keyed]
  exact key_key u raw

theorem nodup_resolve (names : List (List Char)) (project : Json) :
    (resolveReferences u names project).1.Nodup := by
  unfold resolveReferences
  refine (nodup_firstSeen _).filterMap ?_
  intro first second reference inFirst inSecond
  simp only [Option.mem_def, Option.map_eq_some_iff] at inFirst inSecond
  obtain ⟨type, -, same⟩ := inFirst
  obtain ⟨type', -, same'⟩ := inSecond
  rw [← same'] at same
  exact congrArg Reference.name same

end Stored

section Clamp

variable {u : Unicode} {candidatePath : Json → Option String} {project : Json}

theorem reference_of_mem_imagesOf {reference : Reference} {asset : Asset}
    (member : asset ∈ imagesOf u candidatePath project reference) : asset.reference = reference := by
  unfold imagesOf at member
  split at member
  · simp only at member
    split at member
    · simp only [List.mem_append, List.mem_map] at member
      rcases member with ⟨path, -, same⟩ | ⟨path, -, same⟩ <;> rw [← same]
    · obtain ⟨path, -, same⟩ := List.mem_map.mp member
      rw [← same]
  · cases member

/-- Only a product has more than one image. -/
theorem length_imagesOf_le {reference : Reference} (other : reference.type ≠ .product) :
    (imagesOf u candidatePath project reference).length ≤ 1 := by
  unfold imagesOf
  split
  · simp only
    rw [List.length_map]
    cases candidatePath _ <;> simp
  · simp

theorem rank_of_mem_imagesOf {reference : Reference} {asset : Asset}
    (member : asset ∈ imagesOf u candidatePath project reference) :
    asset.rank = 2 ↔ reference.type ≠ .product := by
  have same := reference_of_mem_imagesOf member
  unfold imagesOf at member
  split at member
  · simp only at member
    split at member
    next isProduct =>
      simp only [List.mem_append, List.mem_map] at member
      rcases member with ⟨path, -, found⟩ | ⟨path, -, found⟩ <;>
        simp [← found, Asset.rank, isProduct]
    next notProduct =>
      have other : reference.type ≠ .product := fun isProduct => notProduct isProduct
      simp [Asset.rank, same, other]
  · cases member

/-- The images of the references of one type. -/
def imagesOfType (u : Unicode) (candidatePath : Json → Option String) (project : Json)
    (references : List Reference) (type : AssetType) : List Asset :=
  (references.filter (·.type = type)).flatMap (imagesOf u candidatePath project)

theorem mem_imagesOfType {references : List Reference} {type : AssetType} {asset : Asset}
    (member : asset ∈ imagesOfType u candidatePath project references type) :
    asset.reference.type = type ∧ (asset.rank = 2 ↔ type ≠ .product) := by
  obtain ⟨reference, inList, found⟩ := List.mem_flatMap.mp member
  have typed := (List.mem_filter.mp inList).2
  simp only [decide_eq_true_eq] at typed
  rw [reference_of_mem_imagesOf found, ← typed]
  exact ⟨rfl, rank_of_mem_imagesOf found⟩

theorem length_ranks (assets : List Asset) (products : ∀ asset ∈ assets, asset.rank ≠ 2) :
    (assets.filter (·.rank = 0) ++ assets.filter (·.rank = 1)).length = assets.length := by
  induction assets with
  | nil => rfl
  | cons asset assets ih =>
    have rest := ih fun other member => products other (List.mem_cons_of_mem _ member)
    have first := products asset List.mem_cons_self
    have either : asset.rank = 0 ∨ asset.rank = 1 := by
      unfold Asset.rank at first ⊢
      split_ifs at first ⊢ <;> omega
    rw [List.length_append] at rest ⊢
    cases either with
    | inl sheet => simp [sheet]; omega
    | inr original => simp [original]; omega

/-- The characters among the references of the images, in their order. -/
def charactersIn (assets : List Asset) : List (List Char) :=
  characterNames (assets.map Asset.reference)

theorem charactersIn_append (first second : List Asset) :
    charactersIn (first ++ second) = charactersIn first ++ charactersIn second := by
  simp [charactersIn, characterNames]

theorem charactersIn_eq_nil {assets : List Asset}
    (others : ∀ asset ∈ assets, asset.reference.type ≠ .character) : charactersIn assets = [] := by
  simp only [charactersIn, characterNames, List.map_eq_nil_iff, List.filter_eq_nil_iff,
    List.mem_map, decide_eq_true_eq]
  rintro reference ⟨asset, member, rfl⟩
  exact others asset member

theorem charactersIn_eq_map {assets : List Asset}
    (all : ∀ asset ∈ assets, asset.reference.type = .character) :
    charactersIn assets = assets.map (·.reference.name) := by
  unfold charactersIn characterNames
  rw [List.filter_eq_self.mpr, List.map_map]
  · rfl
  · intro reference member
    obtain ⟨asset, inside, same⟩ := List.mem_map.mp member
    rw [← same]
    exact decide_eq_true (all asset inside)

/-- The characters that a cut keeps after what comes before them. -/
theorem charactersIn_take {before characters after : List Asset} (most : Nat)
    (noneBefore : ∀ asset ∈ before, asset.reference.type ≠ .character)
    (all : ∀ asset ∈ characters, asset.reference.type = .character)
    (noneAfter : ∀ asset ∈ after, asset.reference.type ≠ .character) :
    charactersIn ((before ++ (characters ++ after)).take most) =
      (characters.map (·.reference.name)).take (most - before.length) := by
  rw [List.take_append, List.take_append, charactersIn_append, charactersIn_append,
    charactersIn_eq_nil fun asset member => noneBefore asset (List.mem_of_mem_take member),
    charactersIn_eq_map fun asset member => all asset (List.mem_of_mem_take member),
    charactersIn_eq_nil fun asset member => noneAfter asset (List.mem_of_mem_take member),
    List.map_take, List.nil_append, List.append_nil]

/-- Every reference has an image. -/
def Available (u : Unicode) (candidatePath : Json → Option String) (project : Json)
    (references : List Reference) : Prop :=
  ∀ reference ∈ references, imagesOf u candidatePath project reference ≠ []

/-- A character that is available has one image. -/
theorem map_characters {references : List Reference}
    (available : Available u candidatePath project references) :
    (imagesOfType u candidatePath project references .character).map Asset.reference =
      references.filter (·.type = .character) := by
  unfold imagesOfType
  induction references with
  | nil => rfl
  | cons reference references ih =>
    have rest := ih fun other member => available other (List.mem_cons_of_mem _ member)
    by_cases isCharacter : reference.type = .character
    · have short := @length_imagesOf_le u candidatePath project reference (by simp [isCharacter])
      have filled := available reference List.mem_cons_self
      obtain ⟨asset, only⟩ : ∃ asset, imagesOf u candidatePath project reference = [asset] := by
        cases images : imagesOf u candidatePath project reference with
        | nil => exact absurd images filled
        | cons asset more =>
          rw [images, List.length_cons] at short
          have none : more = [] := List.eq_nil_of_length_eq_zero (by omega)
          exact ⟨asset, by rw [none]⟩
      have same : asset.reference = reference :=
        reference_of_mem_imagesOf (by rw [only]; exact List.mem_singleton_self _)
      rw [List.filter_cons_of_pos (by simpa using isCharacter), List.flatMap_cons, List.map_append,
        rest, only]
      simp [same]
    · rw [List.filter_cons_of_neg (by simpa using isCharacter)]
      exact rest

/-- The number of images of the products. -/
def productImages (u : Unicode) (candidatePath : Json → Option String) (project : Json)
    (references : List Reference) : Nat :=
  (imagesOfType u candidatePath project references .product).length

section Execution

variable {references : List Reference}

theorem resolve_stored (named : Named u references) (nodup : references.Nodup) :
    resolveReferenceAssets u candidatePath project (storedReferences references) =
      imagesOfType u candidatePath project references .product ++
        (imagesOfType u candidatePath project references .character ++
          (imagesOfType u candidatePath project references .scene ++
            imagesOfType u candidatePath project references .prop)) := by
  unfold resolveReferenceAssets imagesOfType
  rw [canonicalize_stored named nodup]
  simp [AssetType.all]

theorem filter_rank_two (products others : List Asset) (first : ∀ asset ∈ products, asset.rank ≠ 2)
    (second : ∀ asset ∈ others, asset.rank = 2) :
    [0, 1, 2].flatMap (fun rank => (products ++ others).filter (·.rank = rank)) =
      (products.filter (·.rank = 0) ++ products.filter (·.rank = 1)) ++ others := by
  have none : ∀ rank, rank ≠ 2 → others.filter (·.rank = rank) = [] := by
    intro rank low
    rw [List.filter_eq_nil_iff]
    intro asset member
    rw [second asset member]
    simpa using low.symm
  have noProduct : products.filter (·.rank = 2) = [] := by
    rw [List.filter_eq_nil_iff]
    intro asset member
    simpa using first asset member
  have all : others.filter (·.rank = 2) = others := by
    rw [List.filter_eq_self]
    intro asset member
    simpa using second asset member
  simp only [List.flatMap_cons, List.flatMap_nil, List.filter_append, none 0 (by omega),
    none 1 (by omega), noProduct, all, List.append_nil, List.nil_append, List.append_assoc]

/-- Of the characters in order, execution keeps as many as fit after the product images. -/
theorem characters_clamped (named : Named u references) (nodup : references.Nodup)
    (available : Available u candidatePath project references) (limit : Option Nat) :
    charactersIn (clampReferenceAssets
      (resolveReferenceAssets u candidatePath project (storedReferences references)) limit) =
      limit.elim (characterNames references) fun most =>
        (characterNames references).take (most - productImages u candidatePath project references) := by
  rw [resolve_stored named nodup]
  generalize others : imagesOfType u candidatePath project references .scene ++
    imagesOfType u candidatePath project references .prop = rest
  have productTyped : ∀ asset ∈ imagesOfType u candidatePath project references .product,
      asset.reference.type ≠ .character ∧ asset.rank ≠ 2 := by
    intro asset member
    have typed := mem_imagesOfType member
    exact ⟨by rw [typed.1]; decide, fun two => typed.2.mp two rfl⟩
  have characterTyped : ∀ asset ∈ imagesOfType u candidatePath project references .character,
      asset.reference.type = .character ∧ asset.rank = 2 := by
    intro asset member
    have typed := mem_imagesOfType member
    exact ⟨typed.1, typed.2.mpr (by decide)⟩
  have restTyped : ∀ asset ∈ rest, asset.reference.type ≠ .character ∧ asset.rank = 2 := by
    intro asset member
    rw [← others, List.mem_append] at member
    cases member with
    | inl scene =>
      have typed := mem_imagesOfType scene
      exact ⟨by rw [typed.1]; decide, typed.2.mpr (by decide)⟩
    | inr prop =>
      have typed := mem_imagesOfType prop
      exact ⟨by rw [typed.1]; decide, typed.2.mpr (by decide)⟩
  have names : (imagesOfType u candidatePath project references .character).map
      (·.reference.name) = characterNames references := by
    rw [characterNames, ← map_characters available, List.map_map]
    rfl
  have whole : charactersIn (imagesOfType u candidatePath project references .product ++
      (imagesOfType u candidatePath project references .character ++ rest)) =
      characterNames references := by
    rw [charactersIn_append, charactersIn_append, charactersIn_eq_nil fun asset member =>
      (productTyped asset member).1, charactersIn_eq_map fun asset member =>
      (characterTyped asset member).1, charactersIn_eq_nil fun asset member =>
      (restTyped asset member).1, names]
    simp
  have count : (characterNames references).length =
      (imagesOfType u candidatePath project references .character).length := by
    rw [← names, List.length_map]
  cases limit with
  | none => exact whole
  | some most =>
    rw [Option.elim_some]
    unfold clampReferenceAssets productImages
    simp only
    split
    next fits =>
      rw [whole, List.take_of_length_le]
      rw [List.length_append, List.length_append] at fits
      omega
    next =>
      have second : ∀ asset ∈ imagesOfType u candidatePath project references .character ++ rest,
          asset.rank = 2 := by
        intro asset member
        cases List.mem_append.mp member with
        | inl character => exact (characterTyped asset character).2
        | inr other => exact (restTyped asset other).2
      have sortedTyped : ∀ asset ∈
          (imagesOfType u candidatePath project references .product).filter (·.rank = 0) ++
            (imagesOfType u candidatePath project references .product).filter (·.rank = 1),
          asset.reference.type ≠ .character := by
        intro asset member
        cases List.mem_append.mp member with
        | inl sheet => exact (productTyped asset (List.mem_of_mem_filter sheet)).1
        | inr original => exact (productTyped asset (List.mem_of_mem_filter original)).1
      rw [filter_rank_two _ _ (fun asset member => (productTyped asset member).2) second,
        charactersIn_take most sortedTyped (fun asset member => (characterTyped asset member).1)
          (fun asset member => (restTyped asset member).1),
        length_ranks _ fun asset member => (productTyped asset member).2, names]

end Execution

end Clamp

section Binding

variable {u : Unicode} {characters : Dict (List Char) Json}

/-- The speaker whose binding a warning is about. -/
def Warning.boundSpeaker? : Warning → Option (List Char)
  | .speakerWithoutAudio name | .speakerAudioUnavailable name | .referenceAudioOverflow _ name
  | .speakerAudioNeedsImage name => some name
  | _ => none

theorem boundSpeaker_of_mem {settings : VoiceRenderSettings} {images : List (List Char)}
    {speakers bound : List (List Char)} {warning : Warning}
    (member : warning ∈ (bindAudio u characters settings images speakers bound).2) :
    ∃ speaker ∈ speakers, warning.boundSpeaker? = some speaker := by
  induction speakers generalizing bound with
  | nil => cases member
  | cons speaker speakers ih =>
    have later : ∀ bound, warning ∈ (bindAudio u characters settings images speakers bound).2 →
        ∃ other ∈ speaker :: speakers, warning.boundSpeaker? = some other := by
      intro bound found
      obtain ⟨other, inside, names⟩ := ih found
      exact ⟨other, List.mem_cons_of_mem _ inside, names⟩
    rw [bindAudio] at member
    split_ifs at member
    · rcases List.mem_cons.mp member with first | rest
      · exact ⟨speaker, List.mem_cons_self, by rw [first]; rfl⟩
      · exact later _ rest
    · rcases List.mem_cons.mp member with first | rest
      · exact ⟨speaker, List.mem_cons_self, by rw [first]; rfl⟩
      · exact later _ rest
    · rcases List.mem_cons.mp member with first | rest
      · exact ⟨speaker, List.mem_cons_self, by rw [first]; rfl⟩
      · exact later _ rest
    · rcases List.mem_cons.mp member with first | rest
      · exact ⟨speaker, List.mem_cons_self, by rw [first]; rfl⟩
      · exact later _ rest
    · exact later _ member

/-- A warning about another speaker is not the first of the warnings. -/
theorem ne_bindAudio {settings : VoiceRenderSettings} {images : List (List Char)}
    {speakers bound : List (List Char)} {warning : Warning} {warnings : List Warning}
    {speaker : List Char} (about : warning.boundSpeaker? = some speaker) (new : speaker ∉ speakers) :
    warning :: warnings ≠ (bindAudio u characters settings images speakers bound).2 := by
  intro same
  have member : warning ∈ (bindAudio u characters settings images speakers bound).2 := by
    rw [← same]
    exact List.mem_cons_self
  obtain ⟨other, inside, names⟩ := boundSpeaker_of_mem member
  rw [about] at names
  exact new (Option.some.inj names ▸ inside)

/-- What stands against binding a speaker, apart from the number of those bound before. -/
inductive Verdict where
  | noAudio
  | noImage
  | candidate
  deriving DecidableEq

def verdict (u : Unicode) (characters : Dict (List Char) Json) (settings : VoiceRenderSettings)
    (images : List (List Char)) (speaker : List Char) : Verdict :=
  if hasAudio u characters settings speaker = false then .noAudio
  else if settings.requiresReferenceImage && speaker ∉ images then .noImage
  else .candidate

def noAudioWarning (characters : Dict (List Char) Json) (settings : VoiceRenderSettings)
    (speaker : List Char) : Warning :=
  if settings.audioReady.isSome && audioFieldSet characters speaker then
    .speakerAudioUnavailable speaker else .speakerWithoutAudio speaker

theorem warnings_bindAudio_cons (settings : VoiceRenderSettings) (images : List (List Char))
    (speaker : List Char) (speakers bound : List (List Char)) :
    (bindAudio u characters settings images (speaker :: speakers) bound).2 =
      match verdict u characters settings images speaker with
      | .noAudio => noAudioWarning characters settings speaker ::
          (bindAudio u characters settings images speakers bound).2
      | .noImage => .speakerAudioNeedsImage speaker ::
          (bindAudio u characters settings images speakers bound).2
      | .candidate =>
        if settings.maxReferenceAudio ≤ bound.length then
          .referenceAudioOverflow settings.maxReferenceAudio speaker ::
            (bindAudio u characters settings images speakers bound).2
        else (bindAudio u characters settings images speakers (bound ++ [speaker])).2 := by
  rw [bindAudio]
  unfold verdict noAudioWarning
  by_cases audio : hasAudio u characters settings speaker = false
  · simp only [audio, ↓reduceIte]
  · rw [if_neg audio, if_neg audio]
    by_cases image : (settings.requiresReferenceImage && decide (speaker ∉ images)) = true
    · rw [if_pos image, if_pos image]
    · rw [if_neg image, if_neg image]
      by_cases full : settings.maxReferenceAudio ≤ bound.length
      · simp only [full, ↓reduceIte]
      · simp only [full, ↓reduceIte]

theorem boundSpeaker_noAudioWarning (settings : VoiceRenderSettings) (speaker : List Char) :
    (noAudioWarning characters settings speaker).boundSpeaker? = some speaker := by
  unfold noAudioWarning
  split <;> rfl

theorem noAudioWarning_cases (settings : VoiceRenderSettings) (speaker : List Char) :
    noAudioWarning characters settings speaker = .speakerAudioUnavailable speaker ∨
      noAudioWarning characters settings speaker = .speakerWithoutAudio speaker := by
  unfold noAudioWarning
  split
  · exact .inl rfl
  · exact .inr rfl

/-- Different verdicts on a speaker give different warnings. -/
theorem warnings_ne_of_verdict {first second : VoiceRenderSettings}
    {images images' : List (List Char)} {speaker : List Char} {speakers bound bound' : List (List Char)}
    (new : speaker ∉ speakers)
    (different : verdict u characters first images speaker ≠
      verdict u characters second images' speaker) :
    (bindAudio u characters first images (speaker :: speakers) bound).2 ≠
      (bindAudio u characters second images' (speaker :: speakers) bound').2 := by
  rw [warnings_bindAudio_cons, warnings_bindAudio_cons]
  intro same
  cases one : verdict u characters first images speaker <;>
    cases two : verdict u characters second images' speaker <;> rw [one, two] at different same <;>
    simp only at same
  · exact different rfl
  · rcases @noAudioWarning_cases characters first speaker with is | is <;>
      simp [is] at same
  · split at same
    · rcases @noAudioWarning_cases characters first speaker with is | is <;>
        simp [is] at same
    · exact ne_bindAudio (boundSpeaker_noAudioWarning first speaker) new same
  · rcases @noAudioWarning_cases characters second speaker with is | is <;>
      simp [is] at same
  · exact different rfl
  · split at same
    · simp at same
    · exact ne_bindAudio (by rfl) new same
  · split at same
    · rcases @noAudioWarning_cases characters second speaker with is | is <;>
        simp [is] at same
    · exact ne_bindAudio (boundSpeaker_noAudioWarning second speaker) new same.symm
  · split at same
    · simp at same
    · exact ne_bindAudio (by rfl) new same.symm
  · exact different rfl

/-- The warnings are the same when every speaker gets the same verdict. -/
theorem warnings_bindAudio_eq_iff {first second : VoiceRenderSettings}
    {images images' : List (List Char)} (limit : first.maxReferenceAudio = second.maxReferenceAudio)
    {speakers : List (List Char)} (nodup : speakers.Nodup)
    (reason : ∀ speaker ∈ speakers, verdict u characters second images' speaker = .noAudio →
      noAudioWarning characters first speaker = noAudioWarning characters second speaker)
    (bound : List (List Char)) :
    (bindAudio u characters first images speakers bound).2 =
        (bindAudio u characters second images' speakers bound).2 ↔
      ∀ speaker ∈ speakers, verdict u characters first images speaker =
        verdict u characters second images' speaker := by
  induction speakers generalizing bound with
  | nil => simp [bindAudio]
  | cons speaker speakers ih =>
    have new := (List.nodup_cons.mp nodup).1
    have rest := ih nodup.of_cons fun other member => reason other (List.mem_cons_of_mem _ member)
    by_cases same : verdict u characters first images speaker =
        verdict u characters second images' speaker
    · rw [List.forall_mem_cons, warnings_bindAudio_cons, warnings_bindAudio_cons, same]
      have why := reason speaker List.mem_cons_self
      cases two : verdict u characters second images' speaker with
      | noAudio =>
        simp only [why two, List.cons.injEq, true_and]
        exact rest bound
      | noImage =>
        simp only [List.cons.injEq, true_and]
        exact rest bound
      | candidate =>
        simp only [limit, true_and]
        by_cases full : second.maxReferenceAudio ≤ bound.length
        · simp only [full, ↓reduceIte, List.cons.injEq, true_and]
          exact rest bound
        · simp only [full, ↓reduceIte]
          exact rest _
    · constructor
      · intro equal
        exact absurd equal (warnings_ne_of_verdict new same)
      · intro all
        exact absurd (all speaker List.mem_cons_self) same

end Binding

section Numbers

theorem map_snd_numbered {α : Type} (items : List α) : (numbered items).map Prod.snd = items := by
  unfold numbered
  exact List.map_snd_zip (by simp)

theorem mem_keys_imageNo_foldl (pairs : List (Nat × Reference)) (numbers : Dict (List Char) Nat)
    (name : List Char) :
    name ∈ (pairs.foldl (fun numbers reference => if reference.2.type = .character
      then numbers.set reference.2.name reference.1 else numbers) numbers).keys ↔
      name ∈ numbers.keys ∨ name ∈ characterNames (pairs.map Prod.snd) := by
  induction pairs generalizing numbers with
  | nil => simp [characterNames]
  | cons pair pairs ih =>
    rw [List.foldl_cons, ih]
    by_cases isCharacter : pair.2.type = .character
    · simp only [isCharacter, ↓reduceIte, Dict.mem_keys_set, characterNames, List.map_cons,
        decide_true, List.filter_cons_of_pos, List.mem_cons]
      rw [or_assoc]
    · simp [isCharacter, characterNames]

theorem mem_keys_characterImageNo (references : List Reference) (name : List Char) :
    name ∈ (characterImageNo references).keys ↔ name ∈ characterNames references := by
  unfold characterImageNo
  rw [mem_keys_imageNo_foldl, map_snd_numbered]
  simp

theorem comparedReferences_eq {u : Unicode} {references : List Reference}
    (keyed : ∀ reference ∈ references, assetNameComparisonKey u reference.name = reference.name) :
    comparedReferences u references = references := by
  unfold comparedReferences
  conv_rhs => rw [← List.map_id references]
  apply List.map_congr_left
  intro reference member
  rw [keyed reference member]
  rfl

end Numbers

section Agreement

variable (u : Unicode) (candidatePath audioPath : Json → Option String) (project : Json)

/-- The references that go out with the request of a unit. -/
def requestReferences (references : List Reference) (limit : Option Nat) : List Reference :=
  (clampReferenceAssets (resolveReferenceAssets u candidatePath project
    (storedReferences references)) limit).map Asset.reference

/-- Every reference has an image among the resolved assets. -/
def AllResolved (references : List Reference) : Prop :=
  ∀ reference ∈ references, ∃ asset ∈ resolveReferenceAssets u candidatePath project
    (storedReferences references), asset.reference = reference

/-- The warnings that speak of voices. -/
def Warning.isVoice : Warning → Bool
  | .unregisteredMention _ | .unclosedBrace _ _ | .dialogueInline _ => false
  | _ => true

/-- The speakers of a text that are in the character table. -/
def registeredSpeakers (text : List Char) : List (List Char) :=
  (speakersOf u (deriveUtterances u (parsePrompt u text).1).1).filter fun speaker =>
    ((bucket u project .character).get? speaker).isSome

/-- A speaker with a reference audio is a character among the first images of the preview just when
it is one among those that are left after the product images; and a speaker without one does not
share its name, up to outer whitespace, with an entry that has one. -/
def SpeakerAgrees (references : List Reference) (limit : Option Nat) (speaker : List Char) : Prop :=
  if audioFieldSet (bucket u project .character) speaker then
    ∀ most, limit = some most →
      (speaker ∈ characterNames (references.take most) ↔
        speaker ∈ (characterNames references).take
          (most - productImages u candidatePath project references))
  else ∀ name ∈ (resolveReferenceAudioPaths u audioPath project).keys,
    assetNameComparisonKey u name ≠ speaker

variable {u candidatePath audioPath project}

theorem resolved_spec {references : List Reference}
    (keyed : ∀ reference ∈ references, assetNameComparisonKey u reference.name = reference.name)
    (resolved : AllResolved u candidatePath project references) :
    Named u references ∧ Available u candidatePath project references := by
  have found : ∀ reference ∈ references, reference.name ≠ [] ∧
      imagesOf u candidatePath project reference ≠ [] := by
    intro reference member
    obtain ⟨asset, inside, same⟩ := resolved reference member
    obtain ⟨other, canonical, image⟩ := List.mem_flatMap.mp inside
    have isOther : other = reference := (reference_of_mem_imagesOf image).symm.trans same
    rw [isOther] at canonical image
    refine ⟨?_, List.ne_nil_of_mem image⟩
    simp only [canonicalizeReferences, storedReferences, mem_firstSeen, List.mem_flatMap,
      List.mem_filterMap] at canonical
    obtain ⟨type, -, item, -, declared⟩ := canonical
    unfold declaredOf at declared
    split at declared
    · simp only [Option.ite_none_right_eq_some, Option.some.injEq] at declared
      rw [← declared.2]
      exact declared.1.2
    · cases declared
  exact ⟨fun reference member => ⟨keyed reference member, (found reference member).1⟩,
    fun reference member => (found reference member).2⟩

theorem mem_requestReferences {references : List Reference} {limit : Option Nat}
    (named : Named u references) (nodup : references.Nodup) {reference : Reference}
    (member : reference ∈ requestReferences u candidatePath project references limit) :
    reference ∈ references := by
  obtain ⟨asset, inside, same⟩ := List.mem_map.mp member
  have sub : asset ∈ resolveReferenceAssets u candidatePath project (storedReferences references) := by
    unfold clampReferenceAssets at inside
    cases limit with
    | none => exact inside
    | some most =>
      simp only at inside
      split at inside
      · exact inside
      · obtain ⟨rank, -, kept⟩ := List.mem_flatMap.mp (List.mem_of_mem_take inside)
        exact List.mem_of_mem_filter kept
  obtain ⟨other, canonical, image⟩ := List.mem_flatMap.mp sub
  rw [canonicalize_stored named nodup] at canonical
  obtain ⟨type, -, kept⟩ := List.mem_flatMap.mp canonical
  rw [← same, reference_of_mem_imagesOf image]
  exact List.mem_of_mem_filter kept

theorem mem_registeredSpeakers {text speaker : List Char}
    (member : speaker ∈ registeredSpeakers u project text) :
    assetNameComparisonKey u speaker = speaker := by
  have spoken := List.mem_of_mem_filter member
  have listed := List.mem_of_mem_filter (mem_firstSeen.mp spoken)
  obtain ⟨entry, -, keyed⟩ := List.mem_map.mp listed
  rw [← keyed]
  exact key_key u _

theorem mem_map_key {names : List (List Char)}
    (keyed : ∀ name ∈ names, assetNameComparisonKey u name = name) (name : List Char) :
    name ∈ names.map (assetNameComparisonKey u) ↔ name ∈ names := by
  rw [List.map_congr_left keyed, List.map_id']

theorem mem_audioPaths (name : List Char) :
    name ∈ (resolveReferenceAudioPaths u audioPath project).keys ↔
      ∃ fields, (bucket u project .character).get? name = some (.obj fields) ∧
        (audioPath ((Json.obj fields).get "reference_audio")).isSome = true := by
  unfold resolveReferenceAudioPaths
  rw [Dict.keys_mapValues, Dict.mem_keys_iff, Dict.get?_filter]
  cases (bucket u project .character).get? name with
  | none => simp
  | some item => cases item <;> simp [Json.isObj, Option.filter]

/-- A character whose field is set has its own audio. -/
theorem hasAudio_of_field
    (declared : ∀ name fields, (bucket u project .character).get? name = some (.obj fields) →
      ((Json.obj fields).get "reference_audio").truthy = true →
      (audioPath ((Json.obj fields).get "reference_audio")).isSome = true)
    {speaker : List Char} (set : audioFieldSet (bucket u project .character) speaker = true) :
    speaker ∈ (resolveReferenceAudioPaths u audioPath project).keys := by
  rw [mem_audioPaths]
  unfold audioFieldSet at set
  split at set
  next fields found => exact ⟨fields, found, declared speaker fields found set⟩
  next => cases set

theorem mem_characterNames {references : List Reference} {name : List Char} :
    name ∈ characterNames references ↔ ⟨.character, name⟩ ∈ references := by
  simp only [characterNames, List.mem_map, List.mem_filter, decide_eq_true_eq]
  constructor
  · rintro ⟨reference, ⟨member, isCharacter⟩, rfl⟩
    rw [← isCharacter]
    exact member
  · intro member
    exact ⟨_, ⟨member, rfl⟩, rfl⟩

/-- The settings of the panel, which does not look at files. -/
def panelSettings (settings : VoiceRenderSettings) : VoiceRenderSettings :=
  { settings with audioReady := none }

/-- The settings of the execution, which knows the audio files that are there. -/
def executionSettings (u : Unicode) (audioPath : Json → Option String) (project : Json)
    (settings : VoiceRenderSettings) : VoiceRenderSettings :=
  { settings with audioReady := some (resolveReferenceAudioPaths u audioPath project).keys }

theorem verdict_panel {settings : VoiceRenderSettings}
    (requires : settings.requiresReferenceImage = true) (images : List (List Char))
    (speaker : List Char) :
    verdict u (bucket u project .character) (panelSettings settings) images speaker =
      if audioFieldSet (bucket u project .character) speaker = false then .noAudio
      else if speaker ∉ images then .noImage else .candidate := by
  unfold verdict hasAudio panelSettings
  simp [requires]

theorem verdict_execution {settings : VoiceRenderSettings}
    (requires : settings.requiresReferenceImage = true) (images : List (List Char))
    (speaker : List Char) :
    verdict u (bucket u project .character) (executionSettings u audioPath project settings) images
      speaker =
      if speaker ∉ (resolveReferenceAudioPaths u audioPath project).keys.map
        (assetNameComparisonKey u) then .noAudio
      else if speaker ∉ images then .noImage else .candidate := by
  unfold verdict hasAudio executionSettings
  simp [requires]

/-- The verdicts agree just when the speaker does. -/
theorem verdict_eq_iff {settings : VoiceRenderSettings}
    (requires : settings.requiresReferenceImage = true)
    (declared : ∀ name fields, (bucket u project .character).get? name = some (.obj fields) →
      ((Json.obj fields).get "reference_audio").truthy = true →
      (audioPath ((Json.obj fields).get "reference_audio")).isSome = true)
    {references : List Reference} {limit : Option Nat} {panel execution : List (List Char)}
    {speaker : List Char} (keyed : assetNameComparisonKey u speaker = speaker)
    (inPanel : speaker ∈ panel ↔
      speaker ∈ limit.elim (characterNames references) fun most =>
        characterNames (references.take most))
    (inExecution : speaker ∈ execution ↔
      speaker ∈ limit.elim (characterNames references) fun most =>
        (characterNames references).take (most - productImages u candidatePath project references)) :
    verdict u (bucket u project .character) (panelSettings settings) panel speaker =
        verdict u (bucket u project .character) (executionSettings u audioPath project settings)
          execution speaker ↔
      SpeakerAgrees u candidatePath audioPath project references limit speaker := by
  rw [verdict_panel requires, verdict_execution requires]
  unfold SpeakerAgrees
  by_cases set : audioFieldSet (bucket u project .character) speaker = true
  · have own : speaker ∈ (resolveReferenceAudioPaths u audioPath project).keys.map
        (assetNameComparisonKey u) := by
      rw [List.mem_map]
      exact ⟨speaker, hasAudio_of_field declared set, keyed⟩
    rw [if_neg (by simp [set]), if_neg (not_not_intro own), if_pos set]
    have same : (if speaker ∉ panel then Verdict.noImage else .candidate) =
        (if speaker ∉ execution then .noImage else .candidate) ↔
          (speaker ∈ panel ↔ speaker ∈ execution) := by
      by_cases first : speaker ∈ panel <;> by_cases second : speaker ∈ execution <;>
        simp [first, second]
    rw [same, inPanel, inExecution]
    cases limit <;> simp
  · rw [if_pos (by simpa using set), if_neg set]
    by_cases shared : speaker ∈ (resolveReferenceAudioPaths u audioPath project).keys.map
        (assetNameComparisonKey u)
    · rw [if_neg (not_not_intro shared)]
      obtain ⟨name, member, same⟩ := List.mem_map.mp shared
      constructor
      · intro equal
        split at equal <;> cases equal
      · intro none
        exact absurd same (none name member)
    · rw [if_pos shared]
      refine ⟨fun _ name member same => shared ?_, fun _ => rfl⟩
      exact List.mem_map.mpr ⟨name, member, same⟩

theorem filter_isVoice (mentions : List (List Char)) (shots : List (List Char))
    (voice : List Warning) (all : ∀ warning ∈ voice, warning.isVoice = true) :
    (mentions.map Warning.unregisteredMention ++ (deriveUtterances u shots).2 ++ voice).filter
      Warning.isVoice = voice := by
  have noMention : (mentions.map Warning.unregisteredMention).filter Warning.isVoice = [] := by
    rw [List.filter_eq_nil_iff]
    intro warning member
    obtain ⟨name, -, same⟩ := List.mem_map.mp member
    rw [← same]
    exact Bool.false_ne_true
  have noSyntax : (deriveUtterances u shots).2.filter Warning.isVoice = [] := by
    rw [List.filter_eq_nil_iff]
    intro warning member
    simp only [deriveUtterances, List.mem_flatMap, List.mem_map] at member
    obtain ⟨read, ⟨shot, -, line, -, isRead⟩, inside⟩ := member
    rw [← isRead] at inside
    unfold readLine at inside
    split at inside
    · rw [List.mem_singleton.mp inside]
      exact Bool.false_ne_true
    · split at inside
      · cases inside
      · split at inside
        · cases inside
        · split at inside
          · rw [List.mem_singleton.mp inside]
            exact Bool.false_ne_true
          · cases inside
  rw [List.filter_append, List.filter_append, noMention, noSyntax, List.nil_append, List.nil_append,
    List.filter_eq_self.mpr all]

theorem isVoice_bindings (characters : Dict (List Char) Json) (settings : VoiceRenderSettings)
    (utterances : List ShotUtterance) (images : List (List Char)) :
    ∀ warning ∈ (deriveVoiceBindings u characters settings utterances images).warnings,
      warning.isVoice = true := by
  intro warning member
  unfold deriveVoiceBindings at member
  simp only at member
  have unknown : ∀ names : List (List Char), warning ∈ names.map Warning.unregisteredSpeaker →
      warning.isVoice = true := by
    intro names inside
    obtain ⟨name, -, same⟩ := List.mem_map.mp inside
    rw [← same]
    rfl
  split at member
  · rcases List.mem_append.mp member with first | silent
    · exact unknown _ first
    · split at silent
      · cases silent
      · split at silent
        · rw [List.mem_singleton.mp silent]
          rfl
        · rw [List.mem_singleton.mp silent]
          rfl
  · split at member
    · rcases List.mem_append.mp member with first | bound
      · exact unknown _ first
      · obtain ⟨speaker, -, about⟩ := boundSpeaker_of_mem bound
        cases warning <;> first | rfl | (cases about)
    · exact unknown _ member

/-- The characters among the first references that a limit leaves. -/
theorem characterNames_clipped (references : List Reference) (limit : Option Nat) :
    characterNames (limit.elim references references.take) =
      limit.elim (characterNames references) fun most => characterNames (references.take most) := by
  cases limit <;> rfl

/-- With the same verdicts the bindings have the same warnings. -/
theorem warnings_bindings_eq_iff {settings : VoiceRenderSettings}
    (native : settings.isSilent = false ∧ settings.voiceConsistency = .native)
    (text : List Char) (panel execution : List (List Char))
    (reason : ∀ speaker ∈ registeredSpeakers u project text,
      verdict u (bucket u project .character) (executionSettings u audioPath project settings)
        (execution.map (assetNameComparisonKey u)) speaker = .noAudio →
      noAudioWarning (bucket u project .character) (panelSettings settings) speaker =
        noAudioWarning (bucket u project .character) (executionSettings u audioPath project settings)
          speaker) :
    (deriveVoiceBindings u (bucket u project .character) (panelSettings settings)
        (deriveUtterances u (parsePrompt u text).1).1 panel).warnings =
      (deriveVoiceBindings u (bucket u project .character)
        (executionSettings u audioPath project settings)
        (deriveUtterances u (parsePrompt u text).1).1 execution).warnings ↔
      ∀ speaker ∈ registeredSpeakers u project text,
        verdict u (bucket u project .character) (panelSettings settings)
            (panel.map (assetNameComparisonKey u)) speaker =
          verdict u (bucket u project .character) (executionSettings u audioPath project settings)
            (execution.map (assetNameComparisonKey u)) speaker := by
  have silent : (panelSettings settings).isSilent = false := native.1
  have silent' : (executionSettings u audioPath project settings).isSilent = false := native.1
  have level : (panelSettings settings).voiceConsistency = .native := native.2
  have level' : (executionSettings u audioPath project settings).voiceConsistency = .native := native.2
  unfold deriveVoiceBindings
  simp only [silent, silent', level, level', Bool.false_eq_true, ↓reduceIte, List.append_cancel_left_eq]
  have limit : (panelSettings settings).maxReferenceAudio =
      (executionSettings u audioPath project settings).maxReferenceAudio := rfl
  have nodup : (registeredSpeakers u project text).Nodup := (nodup_firstSeen _).filter _
  exact warnings_bindAudio_eq_iff limit nodup reason []

/-- For a model that wants an image for every reference audio, with every reference resolved and
every declared audio there: the panel and the execution warn of the same voices just when the
audio is not used at all or every registered speaker agrees. -/
theorem preview_warns_as_execution_iff (u : Unicode)
    (candidatePath audioPath : Json → Option String) (text : List Char) (project : Json)
    (settings : VoiceRenderSettings) (limit : Option Nat) (style : Option (List Char))
    (requires : settings.requiresReferenceImage = true)
    (resolved : AllResolved u candidatePath project (deriveReferencesFromText u text project).1)
    (declared : ∀ name fields, (bucket u project .character).get? name = some (.obj fields) →
      ((Json.obj fields).get "reference_audio").truthy = true →
      (audioPath ((Json.obj fields).get "reference_audio")).isSome = true) :
    (buildScriptPreview u text project (panelSettings settings) limit).warnings.filter
        Warning.isVoice =
      (renderUnitPrompt u text project (requestReferences u candidatePath project
        (deriveReferencesFromText u text project).1 limit)
        (executionSettings u audioPath project settings) style).warnings.filter Warning.isVoice ↔
      (settings.isSilent = true ∨ settings.voiceConsistency ≠ .native ∨
        ∀ speaker ∈ registeredSpeakers u project text,
          SpeakerAgrees u candidatePath audioPath project
            (deriveReferencesFromText u text project).1 limit speaker) := by
  have sameReferences : (resolveReferences u (parsePrompt u text).2 project).1 =
      (deriveReferencesFromText u text project).1 := by
    have mentions : (parsePrompt u text).2 = extractMentions u text :=
      extractMentions_normalizeSource u text
    rw [deriveReferencesFromText, mentions]
  generalize derivedIs : (deriveReferencesFromText u text project).1 = derived at *
  have keyed : ∀ reference ∈ derived, assetNameComparisonKey u reference.name = reference.name := by
    intro reference member
    rw [← derivedIs] at member
    exact named_of_mem_resolve member
  have nodup : derived.Nodup := by
    rw [← derivedIs]
    exact nodup_resolve _ _
  have spec := resolved_spec keyed resolved
  have requested : ∀ reference ∈ requestReferences u candidatePath project derived limit,
      assetNameComparisonKey u reference.name = reference.name := fun reference member =>
    keyed reference (mem_requestReferences spec.1 nodup member)
  have panelWarnings : (buildScriptPreview u text project (panelSettings settings) limit).warnings =
      (resolveReferences u (parsePrompt u text).2 project).2.map .unregisteredMention ++
        (deriveUtterances u (parsePrompt u text).1).2 ++
        (deriveVoiceBindings u (bucket u project .character) (panelSettings settings)
          (deriveUtterances u (parsePrompt u text).1).1
          (characterNames (limit.elim derived derived.take))).warnings := by
    rw [← sameReferences]
    rfl
  have executionWarnings : (renderUnitPrompt u text project (requestReferences u candidatePath
      project derived limit) (executionSettings u audioPath project settings) style).warnings =
      (resolveReferences u (parsePrompt u text).2 project).2.map .unregisteredMention ++
        (deriveUtterances u (parsePrompt u text).1).2 ++
        (deriveVoiceBindings u (bucket u project .character)
          (executionSettings u audioPath project settings)
          (deriveUtterances u (parsePrompt u text).1).1
          (characterImageNo (comparedReferences u (requestReferences u candidatePath project derived
            limit))).keys).warnings := rfl
  rw [panelWarnings, executionWarnings, filter_isVoice _ _ _ (isVoice_bindings _ _ _ _),
    filter_isVoice _ _ _ (isVoice_bindings _ _ _ _)]
  by_cases silent : settings.isSilent = true
  · have quiet : (panelSettings settings).isSilent = true := silent
    have quiet' : (executionSettings u audioPath project settings).isSilent = true := silent
    unfold deriveVoiceBindings
    simp only [quiet, quiet', ↓reduceIte, silent, true_or, iff_true]
    rfl
  · by_cases level : settings.voiceConsistency = .native
    · rw [warnings_bindings_eq_iff ⟨eq_false_of_ne_true silent, level⟩ text]
      · simp only [silent, level, ne_eq, not_true_eq_false, false_or, Bool.false_eq_true]
        apply forall₂_congr
        intro speaker member
        apply verdict_eq_iff requires declared (mem_registeredSpeakers member)
        · rw [mem_map_key, characterNames_clipped]
          intro name inside
          have reference := mem_characterNames.mp inside
          have mentioned : (⟨.character, name⟩ : Reference) ∈ derived := by
            cases limit with
            | none => exact reference
            | some most => exact List.mem_of_mem_take reference
          exact keyed _ mentioned
        · rw [mem_map_key, mem_keys_characterImageNo, comparedReferences_eq requested,
            ← characters_clamped spec.1 nodup spec.2]
          · rfl
          · intro name inside
            rw [mem_keys_characterImageNo, comparedReferences_eq requested] at inside
            exact requested _ (mem_characterNames.mp inside)
      · intro speaker member noAudio
        have unset : audioFieldSet (bucket u project .character) speaker = false := by
          by_contra set
          have own := hasAudio_of_field declared (eq_true_of_ne_false set)
          rw [verdict_execution requires, if_neg] at noAudio
          · split at noAudio <;> cases noAudio
          · intro absent
            exact absent (List.mem_map.mpr ⟨speaker, own, mem_registeredSpeakers member⟩)
        simp [noAudioWarning, unset]
    · have other : (panelSettings settings).voiceConsistency ≠ .native := level
      have other' : (executionSettings u audioPath project settings).voiceConsistency ≠ .native := level
      have loud : (panelSettings settings).isSilent = false := eq_false_of_ne_true silent
      have loud' : (executionSettings u audioPath project settings).isSilent = false :=
        eq_false_of_ne_true silent
      unfold deriveVoiceBindings
      simp [loud, loud', other, other', level]

end Agreement

private def shopProject : Json :=
  .obj [("characters", .obj [("甲", .obj [("character_sheet", .str "characters/a.png"),
      ("reference_audio", .str "characters/refs_audio/a.wav")])]),
    ("scenes", .obj [("店", .obj [("scene_sheet", .str "scenes/b.png")])])]

private def shopText : List Char := "@[店]开门\n@[甲]进店\n@[甲]：\x7b你好\x7d".toList

private def wanSettings : VoiceRenderSettings := ⟨.native, true, 5, "wan2.7-r2v".toList, none, true⟩

private def filePath (value : Json) : Option String := if value.truthy then value.str? else none

private def audioFile (value : Json) : Option String :=
  if value.truthy then some (value.str?.getD "") else none

private theorem resolved_shop : AllResolved plainUnicode filePath shopProject
    (deriveReferencesFromText plainUnicode shopText shopProject).1 := by
  unfold AllResolved
  decide

private theorem declared_shop (name : List Char) (fields : List (String × Json))
    (_ : (bucket plainUnicode shopProject .character).get? name = some (.obj fields))
    (set : ((Json.obj fields).get "reference_audio").truthy = true) :
    (audioFile ((Json.obj fields).get "reference_audio")).isSome = true := by
  unfold audioFile
  rw [if_pos set]
  rfl

theorem preview_warns_as_execution_iff_shop :
    (buildScriptPreview plainUnicode shopText shopProject (panelSettings wanSettings)
        (some 2)).warnings.filter Warning.isVoice =
      (renderUnitPrompt plainUnicode shopText shopProject (requestReferences plainUnicode filePath
        shopProject (deriveReferencesFromText plainUnicode shopText shopProject).1 (some 2))
        (executionSettings plainUnicode audioFile shopProject wanSettings) none).warnings.filter
        Warning.isVoice := by
  apply (preview_warns_as_execution_iff plainUnicode filePath audioFile shopText shopProject
    wanSettings (some 2) none rfl resolved_shop declared_shop).mpr
  right
  right
  intro speaker member
  have only : registeredSpeakers plainUnicode shopProject shopText = ["甲".toList] := by
    decide
  rw [only, List.mem_singleton] at member
  unfold SpeakerAgrees
  rw [member, if_pos (by decide)]
  intro most isTwo
  rw [← Option.some.inj isTwo]
  decide

/-- With room for one image the panel keeps the scene that is mentioned first, the execution the
character, so that only the panel warns of a missing image. -/
theorem preview_warns_of_kept_image :
    AllResolved plainUnicode filePath shopProject
      (deriveReferencesFromText plainUnicode shopText shopProject).1 ∧
    (buildScriptPreview plainUnicode shopText shopProject (panelSettings wanSettings)
      (some 1)).warnings.filter Warning.isVoice = [.speakerAudioNeedsImage "甲".toList] ∧
    (renderUnitPrompt plainUnicode shopText shopProject (requestReferences plainUnicode filePath
      shopProject (deriveReferencesFromText plainUnicode shopText shopProject).1 (some 1))
      (executionSettings plainUnicode audioFile shopProject wanSettings) none).warnings.filter
      Warning.isVoice = [] := by
  refine ⟨resolved_shop, ?_, ?_⟩ <;> decide

end ArcReel.Prompt
