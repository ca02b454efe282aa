import ArcReel.Speech.Assembly

/-! The utterances of an admitted unit at its admission, at its execution and in the second segment
of its prompt. -/

namespace ArcReel.Speech
open Lib PyText Mention Prompt

section Execution

variable (u : Unicode)

/-- As many opening braces as closing ones. -/
def Balanced (line : List Char) : Prop := line.count '\x7b' = line.count '\x7d'

instance (line : List Char) : Decidable (Balanced line) := by
  unfold Balanced
  infer_instance

theorem count_lstrip {c : Char} (visible : isSpace c = false) (text : List Char) :
    (lstrip text).count c = text.count c := by
  induction text with
  | nil => rfl
  | cons d text ih =>
    unfold lstrip at ih ⊢
    by_cases space : isSpace d = true
    · have different : d ≠ c := by
        intro same
        rw [same, visible] at space
        cases space
      rw [List.dropWhile_cons_of_pos space, ih, List.count_cons_of_ne different]
    · rw [List.dropWhile_cons_of_neg space]

theorem count_strip {c : Char} (visible : isSpace c = false) (text : List Char) :
    (strip text).count c = text.count c := by
  rw [← count_lstrip visible text, strip]
  induction lstrip text using List.reverseRecOn with
  | nil => rfl
  | append_singleton text d ih =>
    by_cases space : isSpace d = true
    · have different : d ≠ c := by
        intro same
        rw [same, visible] at space
        cases space
      rw [List.rdropWhile_concat_pos _ _ _ space, ih, List.count_append,
        List.count_singleton, if_neg (by simpa using different), Nat.add_zero]
    · rw [List.rdropWhile_concat_neg _ _ _ space]

theorem balanced_core (line : List Char) : Balanced (core u line) ↔ Balanced (normalizeSource u line) := by
  rw [Balanced, Balanced, core, count_strip (by decide), count_strip (by decide)]

/-- What execution hears of a line as it is looked at. -/
def heard (line : List Char) : List Utterance := if Balanced line then (said u line).toList else []

/-- What admission hears of a line. -/
def admitted (line : List Char) : List Utterance := (said u line).toList

theorem core_of_normalized {line : List Char} (normalized : normalizeSource u line = line) :
    core u line = strip line := by rw [core, normalized]

/-- A normalized line is read as it is heard. -/
theorem readLine_eq (index : Nat) {line : List Char} (normalized : normalizeSource u line = line) :
    (readLine u index line).1.map ShotUtterance.utterance = heard u (core u line) := by
  rw [heard, said_core, readLine]
  by_cases balanced : Balanced line
  · have coreBalanced : Balanced (core u line) := by rwa [balanced_core, normalized]
    rw [if_pos coreBalanced, if_neg (by simpa [Balanced] using balanced), said]
    cases matchDialogueLine u line with
    | some found => rfl
    | none =>
      cases matchVoiceoverLine u line with
      | some text => rfl
      | none => rfl
  · have coreUnbalanced : ¬Balanced (core u line) := by rwa [balanced_core, normalized]
    rw [if_neg coreUnbalanced, if_pos (by simpa [Balanced] using balanced)]
    rfl

/-- A text that normalization leaves alone. -/
def Normalized (text : List Char) : Prop := normalizeSource u text = text

variable {u}

theorem Normalized.part {text before part after : List Char} (normalized : Normalized u text)
    (split : text = before ++ part ++ after) : Normalized u part :=
  normalizeSource_part u (normalized.trans split)

theorem Normalized.join {lines : List (List Char)} (each : ∀ line ∈ lines, Normalized u line) :
    Normalized u (joinLines lines) := by
  induction lines with
  | nil => exact normalizeSource_nil u
  | cons line lines ih =>
    have first := each line List.mem_cons_self
    have rest := ih fun other member => each other (List.mem_cons_of_mem _ member)
    cases lines with
    | nil => simpa [joinLines] using first
    | cons next lines =>
      have unfolded : joinLines (line :: next :: lines) = line ++ '\n' :: joinLines (next :: lines) := by
        simp [joinLines, List.intercalate_cons_cons]
      rw [Normalized, unfolded, normalizeSource_break u (by decide), first, rest]

theorem Normalized.lstrip {text : List Char} (normalized : Normalized u text) :
    Normalized u (lstrip text) :=
  @Normalized.part u text (text.takeWhile isSpace) _ [] normalized (by
    rw [List.append_nil]
    exact List.takeWhile_append_dropWhile.symm)

theorem Normalized.strip {text : List Char} (normalized : Normalized u text) :
    Normalized u (strip text) := by
  obtain ⟨after, rear⟩ := List.rdropWhile_prefix isSpace (PyText.lstrip text)
  exact @Normalized.part u _ [] _ after normalized.lstrip rear.symm

theorem Normalized.header {line rest : List Char} (normalized : Normalized u line)
    (found : shotHeader? u line = some rest) : Normalized u rest := by
  rw [← normalized] at found
  obtain ⟨body, before, c, split, same, _⟩ := header_split found
  rw [same]
  apply Normalized.lstrip
  have coreNormalized : Normalized u (core u line) := normalizeSource_core u line
  exact @Normalized.part u _ ('镜' :: before ++ [c]) body [] coreNormalized (by rw [split]; simp)

theorem normalized_of_mem_splitlines {text line : List Char} (normalized : Normalized u text)
    (member : line ∈ splitlines text) : Normalized u line := by
  cases line with
  | nil => exact normalizeSource_nil u
  | cons c line =>
    have kept : c :: line ∈ (splitlines text).filter filled := List.mem_filter.mpr ⟨member, rfl⟩
    rw [splitlines_filled] at kept
    exact normalized_pieces normalized (List.mem_of_mem_filter kept)

/-- The shots of a normalized text are normalized. -/
theorem normalized_parseShots {text : List Char} (normalized : Normalized u text) :
    ∀ shot ∈ parseShots u text, Normalized u shot := by
  have folded : ∀ (lines : List (List Char)) (cut : Cut), (∀ line ∈ lines, Normalized u line) →
      (∀ shot ∈ cut.segments, Normalized u shot) → (∀ line ∈ cut.current, Normalized u line) →
      (∀ shot ∈ (lines.foldl (Cut.line u) cut).segments, Normalized u shot) ∧
        ∀ line ∈ (lines.foldl (Cut.line u) cut).current, Normalized u line := by
    intro lines
    induction lines with
    | nil => exact fun cut _ shots current => ⟨shots, current⟩
    | cons line lines ih =>
      intro cut each shots current
      have first := each line List.mem_cons_self
      have opening := (Normalized.join current).strip
      rw [List.foldl_cons]
      apply ih _ fun other member => each other (List.mem_cons_of_mem _ member)
      · unfold Cut.line
        cases shotHeader? u line with
        | none => exact shots
        | some rest =>
          by_cases started : cut.started = true
          · simp only [started, if_true]
            intro shot member
            rcases List.mem_append.mp member with old | new
            · exact shots shot old
            · rw [List.mem_singleton.mp new]
              exact opening
          · simpa only [started, Bool.false_eq_true, if_false] using shots
      · unfold Cut.line
        cases header : shotHeader? u line with
        | none =>
          intro other member
          rcases List.mem_append.mp member with old | new
          · exact current other old
          · rw [List.mem_singleton.mp new]
            exact first
        | some rest =>
          have rest := first.header header
          by_cases started : cut.started = true
          · simp only [started, if_true]
            simpa using rest
          · simp only [started, Bool.false_eq_true, if_false]
            intro other member
            split at member
            · rw [List.mem_singleton.mp member]
              exact rest
            · rcases List.mem_cons.mp member with same | last
              · rw [same]
                exact opening
              · rw [List.mem_singleton.mp last]
                exact rest
  have lines := folded (splitlines text) ⟨[], false, []⟩
    (fun line member => normalized_of_mem_splitlines normalized member) (by simp) (by simp)
  intro shot member
  rw [parseShots] at member
  split at member
  · rcases List.mem_append.mp member with old | new
    · exact lines.1 shot old
    · rw [List.mem_singleton.mp new]
      exact (Normalized.join lines.2).strip
  · rw [List.mem_singleton.mp member]
    exact normalized.strip

theorem normalized_parsePrompt (text : List Char) :
    ∀ shot ∈ (parsePrompt u text).1, Normalized u shot :=
  normalized_parseShots (normalizeSource_idem u text)

/-- The utterances derived from normalized shots are those heard of their lines. -/
theorem deriveUtterances_eq {shots : List (List Char)} (normalized : ∀ shot ∈ shots, Normalized u shot) :
    (deriveUtterances u shots).1.map ShotUtterance.utterance = shots.flatMap (hear u (heard u)) := by
  have numbers : ∀ (shots : List (List Char)) (start : Nat), (∀ shot ∈ shots, Normalized u shot) →
      ((((List.range' start shots.length).zip shots).flatMap fun shot =>
        (splitlines shot.2).map (readLine u shot.1)).flatMap Prod.fst).map ShotUtterance.utterance =
        shots.flatMap (hear u (heard u)) := by
    intro shots
    induction shots with
    | nil => intros; rfl
    | cons shot shots ih =>
      intro start normalized
      rw [List.length_cons, List.range'_succ, List.zip_cons_cons, List.flatMap_cons,
        List.flatMap_append, List.map_append, ih (start + 1) fun other member =>
          normalized other (List.mem_cons_of_mem _ member), List.flatMap_cons]
      congr 1
      rw [List.flatMap_map, List.map_flatMap, hear, perLine]
      apply List.flatMap_congr
      intro line member
      exact readLine_eq u start
        (normalized_of_mem_splitlines (normalized shot List.mem_cons_self) member)
  exact numbers shots 1 normalized

end Execution

section Admission

variable {u : Unicode}

/-- A prepared utterance without its place in the unit. -/
def SpeechUtterance.spoken (utterance : SpeechUtterance) : Utterance :=
  match utterance.owner with
  | .character => .dialogue (utterance.speaker.getD []) utterance.text
  | .narrator => .voiceover utterance.text

/-- An entry that is no problem: whoever has to be named is. -/
def Sound (item : SpeechInputUtterance ⊕ SpeechProblem) : Prop :=
  ∃ entry, item = .inl entry ∧ (entry.speakerRequired && (namedSpeaker entry).isNone) = false

theorem speaker_of_matchDialogueLine {line speaker text : List Char}
    (found : matchDialogueLine u line = some (speaker, text)) : speaker ≠ [] ∧ strip speaker = speaker := by
  unfold matchDialogueLine at found
  dsimp only at found
  split at found
  · cases found
  · split at found
    · cases found
    · split at found
      · cases found
      · split at found
        · cases found
        · split at found
          · cases found
          · split at found
            · cases found
            · next named =>
              rw [Option.some.injEq, Prod.mk.injEq] at found
              rw [← found.1]
              refine ⟨by simpa using named, ?_⟩
              rw [assetNameComparisonKey, u.nfc_strip, strip_strip]

variable {unitId : List Char} {names : List (List Char)} {location : SpeechFieldLocation}

theorem braceFree_of_adaptLine {line : List Char}
    (nothing : adaptLine u unitId names location line = none) : said u line = none ∧ BraceFree line := by
  unfold adaptLine at nothing
  unfold said
  cases dialogue : matchDialogueLine u line with
  | some found => simp [dialogue] at nothing
  | none =>
    cases voiceover : matchVoiceoverLine u line with
    | some text => simp [dialogue, voiceover] at nothing
    | none =>
      simp only [dialogue, voiceover] at nothing
      split at nothing
      · split at nothing
        · cases nothing
        · cases nothing
      · split at nothing
        · cases nothing
        · next tidy =>
          simp only [Bool.or_eq_true, not_or, List.any_eq_true, beq_iff_eq] at tidy
          refine ⟨rfl, fun opened => tidy.1.1 ⟨_, opened, by simp⟩, fun closed => tidy.1.1 ⟨_, closed, by simp⟩⟩

theorem said_of_adaptLine {line : List Char} {entry : SpeechInputUtterance}
    (found : adaptLine u unitId names location line = some (.inl entry))
    (named : (entry.speakerRequired && (namedSpeaker entry).isNone) = false) :
    said u line = some (utteranceOf entry).spoken := by
  unfold adaptLine at found
  unfold said
  cases dialogue : matchDialogueLine u line with
  | some pair =>
    have speaker := speaker_of_matchDialogueLine dialogue
    simp only [dialogue, Option.some.injEq, Sum.inl.injEq] at found
    rw [← found]
    simp [utteranceOf, SpeechUtterance.spoken, namedSpeaker, Option.filter, speaker.2, speaker.1]
  | none =>
    cases voiceover : matchVoiceoverLine u line with
    | some text =>
      simp only [dialogue, voiceover, Option.some.injEq, Sum.inl.injEq] at found
      rw [← found]
      rfl
    | none =>
      simp only [dialogue, voiceover] at found
      split at found
      · split at found
        · simp at found
        · simp only [Option.some.injEq, Sum.inl.injEq] at found
          rw [← found] at named
          cases named
      · split at found
        · simp at found
        · cases found

/-- The lines of a text without problems are clean, and their entries are what is said. -/
theorem hear_of_sound_lines (place : Nat → SpeechFieldLocation) (lines : List (List Char)) (start : Nat)
    (sound : ∀ item ∈ (lines.zipIdx start).filterMap fun line =>
      adaptLine u unitId names (place line.2) line.1, Sound item) :
    lines.flatMap (fun line => stray u (core u line)) = [] ∧
      (((lines.zipIdx start).filterMap fun line =>
        adaptLine u unitId names (place line.2) line.1).filterMap Sum.getLeft?).map
          (fun entry => (utteranceOf entry).spoken) =
        lines.flatMap fun line => admitted u (core u line) := by
  induction lines generalizing start with
  | nil => exact ⟨rfl, rfl⟩
  | cons line lines ih =>
    rw [List.zipIdx_cons] at sound ⊢
    rw [List.flatMap_cons, List.flatMap_cons]
    cases found : adaptLine u unitId names (place start) line with
    | none =>
      simp only [List.filterMap_cons, found] at sound ⊢
      have later := ih (start + 1) sound
      have quietLine := braceFree_of_adaptLine found
      have nothing : admitted u (core u line) = [] := by
        rw [admitted, said_core, quietLine.1]
        rfl
      rw [quiet_stray u _ (quietLine.2.core u), nothing]
      exact later
    | some item =>
      simp only [List.filterMap_cons, found] at sound ⊢
      have later := ih (start + 1) fun other member => sound other (List.mem_cons_of_mem _ member)
      obtain ⟨entry, same, named⟩ := sound item List.mem_cons_self
      rw [same] at found
      have spoken := said_of_adaptLine found named
      have tidy : stray u (core u line) = [] := by
        rw [stray, said_core, spoken, if_neg (by simp)]
      have something : admitted u (core u line) = [(utteranceOf entry).spoken] := by
        rw [admitted, said_core, spoken]
        rfl
      rw [tidy, something, same, ← later.2]
      exact ⟨later.1, rfl⟩

/-- A shot without problems is an object with a clean text, and its entries are what is said. -/
theorem hear_of_sound_shot {index : Nat} {shot : Json}
    (sound : ∀ item ∈ adaptShot u unitId names index shot, Sound item) :
    shot.isObj = true ∧ Clean u (shotText shot) ∧
      ((adaptShot u unitId names index shot).filterMap Sum.getLeft?).map
        (fun entry => (utteranceOf entry).spoken) = hear u (admitted u) (shotText shot) := by
  have problem : ∀ wrong : SpeechProblem, ¬Sound (.inr wrong) := by
    rintro wrong ⟨entry, same, _⟩
    cases same
  cases shot with
  | obj fields =>
    unfold adaptShot at sound ⊢
    rw [if_pos (show (Json.obj fields).isObj = true from rfl)] at sound ⊢
    cases text : (Json.obj fields).get "text" with
    | str value =>
      simp only [text] at sound ⊢
      have content : shotText (.obj fields) = value.toList := by
        rw [shotText, text]
        rfl
      have lines := hear_of_sound_lines
        (fun line => ⟨[.field "shots", .index index, .field "text"], some line⟩) _ 0 sound
      rw [content]
      exact ⟨rfl, lines.1, lines.2⟩
    | _ =>
      simp only [text] at sound
      exact absurd (sound _ (List.mem_singleton.mpr rfl)) (problem _)
  | _ =>
    unfold adaptShot at sound
    exact absurd (sound _ (List.mem_singleton.mpr rfl)) (problem _)

/-- The shots of a unit. -/
def unitShots (unit : Json) : List Json :=
  match unit.get "shots" with
  | .arr shots => shots
  | _ => []

theorem getRight?_eq_nil {items : List (SpeechInputUtterance ⊕ SpeechProblem)}
    (none : items.filterMap Sum.getRight? = []) {item : SpeechInputUtterance ⊕ SpeechProblem}
    (member : item ∈ items) : ∃ entry, item = .inl entry ∧ entry ∈ items.filterMap Sum.getLeft? := by
  cases item with
  | inl entry => exact ⟨entry, rfl, List.mem_filterMap.mpr ⟨_, member, rfl⟩⟩
  | inr wrong =>
    have found : wrong ∈ items.filterMap Sum.getRight? := List.mem_filterMap.mpr ⟨_, member, rfl⟩
    rw [none] at found
    cases found

/-- A unit is admitted when its items are sound, among other things. -/
theorem sound_of_allowed {snapshot : SpeechUnitSnapshot} {initial : List SpeechProblem}
    {items : List (SpeechInputUtterance ⊕ SpeechProblem)}
    (entries : snapshot.entries = items.filterMap Sum.getLeft?)
    (problems : snapshot.problems = initial ++ items.filterMap Sum.getRight?)
    (allowed : (prepare snapshot).allowed = true) : ∀ item ∈ items, Sound item := by
  have empty : (prepare snapshot).problems = [] := List.isEmpty_iff.mp allowed
  unfold prepare at empty
  dsimp only at empty
  rw [List.append_eq_nil_iff, List.append_eq_nil_iff, problems, List.append_eq_nil_iff] at empty
  intro item member
  obtain ⟨entry, same, inside⟩ := getRight?_eq_nil empty.1.1.2 member
  refine ⟨entry, same, ?_⟩
  have named := List.filter_eq_nil_iff.mp (List.map_eq_nil_iff.mp empty.1.2) entry (entries ▸ inside)
  exact eq_false_of_ne_true named

theorem hear_of_sound_shots (shots : List Json) (start : Nat)
    (sound : ∀ item ∈ (shots.zipIdx start).flatMap fun (shot : Json × Nat) =>
      adaptShot u unitId names shot.2 shot.1, Sound item) :
    (∀ shot ∈ shots, shot.isObj = true) ∧ (∀ shot ∈ shots, Clean u (shotText shot)) ∧
      (((shots.zipIdx start).flatMap fun (shot : Json × Nat) =>
        adaptShot u unitId names shot.2 shot.1).filterMap Sum.getLeft?).map
          (fun entry => (utteranceOf entry).spoken) =
        shots.flatMap fun shot => hear u (admitted u) (shotText shot) := by
  induction shots generalizing start with
  | nil => exact ⟨by simp, by simp, rfl⟩
  | cons shot shots ih =>
    rw [List.zipIdx_cons, List.flatMap_cons] at sound ⊢
    have first := hear_of_sound_shot fun item member => sound item (List.mem_append_left _ member)
    have later := ih (start + 1) fun item member => sound item (List.mem_append_right _ member)
    refine ⟨?_, ?_, ?_⟩
    · intro other member
      rcases List.mem_cons.mp member with same | inside
      · rw [same]
        exact first.1
      · exact later.1 other inside
    · intro other member
      rcases List.mem_cons.mp member with same | inside
      · rw [same]
        exact first.2.1
      · exact later.2.1 other inside
    · rw [List.filterMap_append, List.map_append, first.2.2, later.2.2, List.flatMap_cons]

/-- The shots of an admitted unit are objects with clean texts, and its utterances are theirs. -/
theorem shots_of_allowed {unit : Json} (allowed : (admitVideoUnit u unit).allowed = true) :
    (∀ shot ∈ unitShots unit, shot.isObj = true) ∧
      (∀ shot ∈ unitShots unit, Clean u (shotText shot)) ∧
      (admitVideoUnit u unit).utterances.map SpeechUtterance.spoken =
        (unitShots unit).flatMap fun shot => hear u (admitted u) (shotText shot) := by
  have sound := @sound_of_allowed (adaptVideoUnit u unit) _ _ rfl rfl allowed
  have utterances : (admitVideoUnit u unit).utterances.map SpeechUtterance.spoken =
      (adaptVideoUnit u unit).entries.map fun entry => (utteranceOf entry).spoken := by
    rw [admitVideoUnit, prepare, List.map_map]
    rfl
  have wrong : ∀ problem : SpeechProblem, (∀ item ∈ [Sum.inr problem], Sound item) → False := by
    intro problem each
    obtain ⟨entry, same, _⟩ := each _ (List.mem_singleton.mpr rfl)
    cases same
  rw [utterances]
  unfold adaptVideoUnit unitShots at *
  cases shots : unit.get "shots" with
  | arr items =>
    simp only [shots] at sound ⊢
    cases items with
    | nil => exact (wrong _ sound).elim
    | cons shot later => exact hear_of_sound_shots (shot :: later) 0 sound
  | _ =>
    simp only [shots] at sound
    exact (wrong _ sound).elim

end Admission

end ArcReel.Speech
