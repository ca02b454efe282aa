import ArcReel.Lib.Pieces
import ArcReel.Mention.Lines
import ArcReel.Speech.Subtitles

/-! The cues of a unit tile its media, and what a reader of their WebVTT file gets. -/

namespace ArcReel.Speech
open Lib PyText Mention Prompt

section Tiling

variable {u : Unicode}

/-- Cues one after another without a gap, each with a positive duration. -/
def Contiguous : Nat → List SubtitleCue → Nat → Prop
  | start, [], stop => start = stop
  | start, cue :: rest, stop =>
    cue.startMicroseconds = start ∧ 0 < cue.durationMicroseconds ∧ Contiguous cue.endMicroseconds rest stop

theorem allot_contiguous {boundary total cumulative : Nat} {utterances : List (SubtitleUtteranceEvidence u)}
    {cues : List SubtitleCue} (allotted : allot boundary total cumulative utterances = some cues) :
    Contiguous (boundary * cumulative / total) cues
        (boundary * (cumulative + totalWeight utterances) / total) ∧
      cues.map (fun cue => (cue.text, cue.owner, cue.speaker)) =
        utterances.map fun utterance => (utterance.text, utterance.owner, utterance.speaker) := by
  induction utterances generalizing cumulative cues with
  | nil =>
    cases allotted
    exact ⟨rfl, rfl⟩
  | cons utterance rest ih =>
    rw [allot] at allotted
    split_ifs at allotted with short
    obtain ⟨later, found, same⟩ := Option.map_eq_some_iff.mp allotted
    obtain ⟨tiles, texts⟩ := ih found
    have whole : totalWeight (utterance :: rest) = utterance.text.length + totalWeight rest := rfl
    rw [← same]
    refine ⟨⟨rfl, ?_, ?_⟩, ?_⟩
    · exact Nat.sub_pos_of_lt (Nat.lt_of_not_le short)
    · have ends : boundary * cumulative / total +
          (boundary * (cumulative + utterance.text.length) / total - boundary * cumulative / total) =
          boundary * (cumulative + utterance.text.length) / total := by omega
      rw [whole, ← Nat.add_assoc]
      show Contiguous (boundary * cumulative / total + (_ - _)) later _
      rw [ends]
      exact tiles
    · rw [List.map_cons, List.map_cons, texts]

/-- With a microsecond for each character no cue is empty. -/
theorem allot_isSome {boundary total : Nat} (enough : total ≤ boundary) (some : 0 < total) (cumulative : Nat)
    (utterances : List (SubtitleUtteranceEvidence u)) :
    (allot boundary total cumulative utterances).isSome = true := by
  induction utterances generalizing cumulative with
  | nil => rfl
  | cons utterance rest ih =>
    have visible : 1 ≤ utterance.text.length := List.length_pos_of_ne_nil utterance.filled
    have wider : boundary * cumulative + total ≤ boundary * (cumulative + utterance.text.length) := by
      rw [Nat.mul_add]
      have weight := Nat.mul_le_mul enough visible
      omega
    have later : boundary * cumulative / total + 1 ≤
        boundary * (cumulative + utterance.text.length) / total := by
      rw [← Nat.add_div_right _ some]
      exact Nat.div_le_div_right wider
    rw [allot, if_neg (by omega), Option.isSome_map]
    exact ih _

end Tiling

section Texts

variable {u : Unicode}

theorem no_return_unifyNewlines (text : List Char) : '\r' ∉ unifyNewlines text := by
  fun_induction unifyNewlines text with
  | case1 rest ih => exact fun member => (List.mem_cons.mp member).elim (by decide) ih
  | case2 rest _ ih => exact fun member => (List.mem_cons.mp member).elim (by decide) ih
  | case3 c rest _ other ih =>
    intro member
    cases List.mem_cons.mp member with
    | inl same => exact other same.symm
    | inr later => exact ih later
  | case4 => exact List.not_mem_nil

namespace SubtitleUtteranceEvidence

variable (utterance : SubtitleUtteranceEvidence u)

theorem no_return : '\r' ∉ utterance.text := by
  obtain ⟨value, same⟩ := utterance.canonical
  rw [same, canonicalText]
  intro member
  obtain ⟨before, after, split, -, -⟩ := strip_split (u.nfc (unifyNewlines value))
  have inside : '\r' ∈ u.nfc (unifyNewlines value) := by
    rw [split]
    exact List.mem_append_left _ (List.mem_append_right _ member)
  exact no_return_unifyNewlines value (u.mem_of_mem_nfc _ _ (.inl (by decide)) inside)

/-- Some line of the text is not blank. -/
theorem cueLines_ne_nil : cueLines utterance.text ≠ [] := by
  obtain ⟨value, same⟩ := utterance.canonical
  cases text : utterance.text with
  | nil => exact absurd text utterance.filled
  | cons c rest =>
    intro none
    have visible : isSpace c = false := by
      apply @head_strip_visible (u.nfc (unifyNewlines value))
      rw [← canonicalText, ← same, text]
      rfl
    have absent : ∀ line ∈ (c :: rest).splitOn '\n', c ∉ line := by
      intro line member inside
      have blank := List.filter_eq_nil_iff.mp none line member
      rw [Bool.not_eq_true', Bool.not_eq_false, List.isEmpty_iff] at blank
      obtain ⟨before, after, split, spaces, trailing⟩ := strip_split line
      rw [blank, List.append_nil] at split
      rw [split, List.mem_append] at inside
      have space : isSpace c = true := inside.elim (spaces c) (trailing c)
      rw [visible] at space
      cases space
    have newline : c ≠ '\n' := by
      rintro rfl
      cases visible
    apply WebVtt.not_mem_intercalate newline absent
    rw [List.intercalate_splitOn]
    exact .head _

end SubtitleUtteranceEvidence

theorem mem_cueLines {text line : List Char} (member : line ∈ cueLines text) :
    line ∈ text.splitOn '\n' ∧ line ≠ [] := by
  obtain ⟨inside, visible⟩ := List.mem_filter.mp member
  refine ⟨inside, ?_⟩
  rintro rfl
  cases visible

theorem plain_of_mem_splitOn {text line : List Char} (member : line ∈ text.splitOn '\n') :
    '\n' ∉ line ∧ ∀ c ∈ line, c ∈ text := by
  obtain ⟨before, after, split, -, -, plain⟩ := mem_splitOnP member
  constructor
  · intro inside
    have apart := plain '\n' inside
    rw [beq_self_eq_true] at apart
    cases apart
  · intro c inside
    rw [split]
    exact List.mem_append_left _ (List.mem_append_right _ inside)

theorem dash_of_arrow {line : List Char} (arrow : WebVtt.hasArrow line = true) : '-' ∈ line := by
  fun_induction WebVtt.hasArrow line with
  | case1 => exact .head _
  | case2 c rest _ ih => exact .tail _ (ih arrow)
  | case3 => cases arrow

/-- A line with an arrow is not blank. -/
theorem arrow_visible {line : List Char} (arrow : WebVtt.hasArrow line = true) : (strip line).isEmpty = false := by
  obtain ⟨before, after, split, spaces, trailing⟩ := strip_split line
  have dash := dash_of_arrow arrow
  rw [List.isEmpty_eq_false_iff]
  intro blank
  rw [split, blank, List.append_nil, List.mem_append] at dash
  have space : isSpace '-' = true := dash.elim (spaces '-') (trailing '-')
  revert space
  decide

theorem no_arrow_of_no_dash {line : List Char} (plain : '-' ∉ line) : WebVtt.hasArrow line = false := by
  rw [Bool.eq_false_iff]
  exact fun arrow => plain (dash_of_arrow arrow)

end Texts

section Timestamps

theorem isDigit_toDigits (n : Nat) : ∀ c ∈ Nat.toDigits 10 n, c.isDigit = true := fun _ member =>
  Nat.isDigit_of_mem_toDigits (by decide) (le_refl _) member

theorem isDigit_padded (width n : Nat) : ∀ c ∈ padded width n, c.isDigit = true := by
  intro c member
  cases List.mem_append.mp member with
  | inl zero =>
    rw [List.eq_of_mem_replicate zero]
    rfl
  | inr digit => exact isDigit_toDigits n c digit

theorem value_padded (width n : Nat) : WebVtt.value (padded width n) = n := by
  rw [WebVtt.value, padded, Nat.ofDigitChars_append, Nat.ofDigitChars_replicate_zero, Nat.mul_zero,
    Nat.ofDigitChars_ten_toDigits]

theorem padded_ne_nil (width n : Nat) : padded width n ≠ [] := by
  intro empty
  exact Nat.toDigits_ne_nil (List.append_eq_nil_iff.mp empty).2

theorem length_padded {width n : Nat} (positive : 0 < width) (fits : n < 10 ^ width) :
    (padded width n).length = width := by
  have short := (Nat.length_toDigits_le_iff (by decide) positive).mpr fits
  rw [padded, List.length_append, List.length_replicate]
  omega

/-- A timestamp is read back in whole milliseconds. -/
theorem timestamp_vttTimestamp (microseconds : Nat) {rest : List Char} (stops : WebVtt.Stops rest) :
    WebVtt.timestamp (vttTimestamp microseconds ++ rest) = some (microseconds / 1000, rest) := by
  have spelled : vttTimestamp microseconds ++ rest =
      padded 2 (microseconds / 1000 / 3600000) ++ ':' ::
        (padded 2 (microseconds / 1000 % 3600000 / 60000) ++ ':' ::
          (padded 2 (microseconds / 1000 % 3600000 % 60000 / 1000) ++ '.' ::
            (padded 3 (microseconds / 1000 % 3600000 % 60000 % 1000) ++ rest))) := by
    simp [vttTimestamp, List.append_assoc]
  have minutes : microseconds / 1000 % 3600000 / 60000 < 60 := by omega
  have seconds : microseconds / 1000 % 3600000 % 60000 / 1000 < 60 := by omega
  have millis : microseconds / 1000 % 3600000 % 60000 % 1000 < 1000 := Nat.mod_lt _ (by decide)
  rw [spelled, WebVtt.timestamp_append]
  · simp only [value_padded]
    congr 2
    omega
  · intro c member
    simp only [List.mem_append] at member
    rcases member with ((hour | minute) | second) | milli
    · exact isDigit_padded _ _ c hour
    · exact isDigit_padded _ _ c minute
    · exact isDigit_padded _ _ c second
    · exact isDigit_padded _ _ c milli
  · exact padded_ne_nil _ _
  · exact length_padded (by decide) (by omega)
  · exact length_padded (by decide) (by omega)
  · exact length_padded (by decide) (by omega)
  · rw [value_padded]
    omega
  · rw [value_padded]
    omega
  · exact stops

theorem vttTimestamp_head (microseconds : Nat) :
    vttTimestamp microseconds ≠ [] ∧ ∀ c ∈ (vttTimestamp microseconds).head?, WebVtt.isBlankSpace c = false := by
  cases digits : padded 2 (microseconds / 1000 / 3600000) with
  | nil => exact absurd digits (padded_ne_nil _ _)
  | cons first others =>
    have figure := isDigit_padded 2 (microseconds / 1000 / 3600000) first (by rw [digits]; exact .head _)
    simp only [vttTimestamp, digits, List.cons_append]
    refine ⟨nofun, ?_⟩
    intro c same
    cases same
    rw [Bool.eq_false_iff]
    intro space
    simp only [WebVtt.isBlankSpace, Bool.or_eq_true, beq_iff_eq] at space
    rcases space with (((rfl | rfl) | rfl) | rfl) | rfl <;> revert figure <;> decide

theorem mem_vttTimestamp {microseconds : Nat} {c : Char} (member : c ∈ vttTimestamp microseconds) :
    c.isDigit = true ∨ c = ':' ∨ c = '.' := by
  simp only [vttTimestamp, List.mem_append, List.mem_cons] at member
  rcases member with digit | same | digit | same | digit | same | digit
  · exact .inl (isDigit_padded _ _ c digit)
  · exact .inr (.inl same)
  · exact .inl (isDigit_padded _ _ c digit)
  · exact .inr (.inl same)
  · exact .inl (isDigit_padded _ _ c digit)
  · exact .inr (.inr same)
  · exact .inl (isDigit_padded _ _ c digit)

end Timestamps

section Blocks

/-- The block of a numbered cue. -/
def cueBlock (cue : SubtitleCue × Nat) : WebVtt.Block where
  identifier := Nat.toDigits 10 cue.2
  timing := vttTimestamp cue.1.startMicroseconds ++ " --> ".toList ++ vttTimestamp cue.1.endMicroseconds
  start := cue.1.startMicroseconds / 1000
  stop := cue.1.endMicroseconds / 1000
  payload := cueLines cue.1.text

/-- What a reader should get of a cue. -/
def SubtitleCue.exported (cue : SubtitleCue) : WebVtt.Cue :=
  ⟨cue.startMicroseconds / 1000, cue.endMicroseconds / 1000, webvttCueText cue.text⟩

theorem cueBlock_sound {cue : SubtitleCue × Nat} (visible : cueLines cue.1.text ≠ []) :
    (cueBlock cue).Sound := by
  refine ⟨⟨Nat.toDigits_ne_nil, ?_⟩, ⟨?_, ?_⟩, visible, ?_⟩
  · apply no_arrow_of_no_dash
    intro dash
    have digit := isDigit_toDigits cue.2 '-' dash
    revert digit
    decide
  · show WebVtt.hasArrow (vttTimestamp cue.1.startMicroseconds ++ " --> ".toList ++
      vttTimestamp cue.1.endMicroseconds) = true
    have spelled : vttTimestamp cue.1.startMicroseconds ++ " --> ".toList ++ vttTimestamp cue.1.endMicroseconds =
        (vttTimestamp cue.1.startMicroseconds ++ [' ']) ++ "-->".toList ++
          (' ' :: vttTimestamp cue.1.endMicroseconds) := by
      simp [List.append_assoc]
    rw [spelled]
    exact WebVtt.hasArrow_append _ _
  · have last := @timestamp_vttTimestamp cue.1.endMicroseconds [] nofun
    have first := vttTimestamp_head cue.1.startMicroseconds
    have second := vttTimestamp_head cue.1.endMicroseconds
    have read := WebVtt.timings_written
      (fun text stops => @timestamp_vttTimestamp cue.1.startMicroseconds text stops)
      last first.2 second.2 first.1 second.1
    rw [List.append_nil] at read
    exact read
  · intro member
    exact (mem_cueLines member).2 rfl

theorem cueBlock_lines {cue : SubtitleCue × Nat} (plain : '\r' ∉ cue.1.text) :
    ∀ line ∈ (cueBlock cue).lines, '\n' ∉ line ∧ '\r' ∉ line := by
  have figures : ∀ line : List Char, (∀ c ∈ line, c.isDigit = true ∨ c = ':' ∨ c = '.' ∨ c ∈ " --> ".toList) →
      '\n' ∉ line ∧ '\r' ∉ line := by
    intro line only
    constructor <;> intro member <;> have kind := only _ member <;> revert kind <;> decide
  have stamp : ∀ microseconds, ∀ c ∈ vttTimestamp microseconds,
      c.isDigit = true ∨ c = ':' ∨ c = '.' ∨ c ∈ " --> ".toList := by
    intro microseconds c member
    rcases mem_vttTimestamp member with digit | colon | point
    · exact .inl digit
    · exact .inr (.inl colon)
    · exact .inr (.inr (.inl point))
  intro line member
  rw [WebVtt.Block.lines, List.mem_cons, List.mem_cons, List.mem_append, List.mem_singleton] at member
  rcases member with identifier | timing | payload | blank
  · rw [identifier]
    exact figures _ fun c inside => .inl (isDigit_toDigits cue.2 c inside)
  · rw [timing]
    apply figures
    intro c inside
    have parts := List.mem_append.mp inside
    rcases parts with front | stop
    · rcases List.mem_append.mp front with start | arrow
      · exact stamp _ c start
      · exact .inr (.inr (.inr arrow))
    · exact stamp _ c stop
  · obtain ⟨newline, inText⟩ := plain_of_mem_splitOn (mem_cueLines payload).1
    exact ⟨newline, fun inside => plain (inText _ inside)⟩
  · rw [blank]
    exact ⟨List.not_mem_nil, List.not_mem_nil⟩

/-- The lines that a cue adds to the file. -/
def writtenLines (cue : SubtitleCue × Nat) : List (List Char) :=
  [Nat.toDigits 10 cue.2,
    vttTimestamp cue.1.startMicroseconds ++ " --> ".toList ++ vttTimestamp cue.1.endMicroseconds,
    webvttCueText cue.1.text, []]

theorem intercalate_writtenLines {entries : List (SubtitleCue × Nat)}
    (visible : ∀ entry ∈ entries, cueLines entry.1.text ≠ []) (first : List Char) :
    ['\n'].intercalate (first :: entries.flatMap writtenLines) =
      ['\n'].intercalate (first :: (entries.map cueBlock).flatMap WebVtt.Block.lines) := by
  induction entries generalizing first with
  | nil => rfl
  | cons entry entries ih =>
    obtain ⟨here, later⟩ := List.forall_mem_cons.mp visible
    let front := [first, (cueBlock entry).identifier, (cueBlock entry).timing]
    let rest := ([] : List Char) :: (entries.map cueBlock).flatMap WebVtt.Block.lines
    have written : first :: ((entry :: entries).map cueBlock).flatMap WebVtt.Block.lines =
        front ++ (cueLines entry.1.text ++ rest) := by
      simp [WebVtt.Block.lines, cueBlock, front, rest]
    have listed : first :: (entry :: entries).flatMap writtenLines =
        front ++ ([webvttCueText entry.1.text] ++ [] :: entries.flatMap writtenLines) := rfl
    have payload : ['\n'].intercalate ([webvttCueText entry.1.text] ++ [] :: entries.flatMap writtenLines) =
        ['\n'].intercalate (cueLines entry.1.text ++ rest) := by
      rw [WebVtt.intercalate_append (List.cons_ne_nil _ _) (List.cons_ne_nil _ _),
        WebVtt.intercalate_append here (List.cons_ne_nil _ _), ih later [], List.intercalate_singleton]
      rfl
    have some : front ≠ [] := List.cons_ne_nil _ _
    rw [written, listed, WebVtt.intercalate_append some (by simp), WebVtt.intercalate_append some (by simp [here]),
      payload]

/-- A file is the lines of the blocks of its cues. -/
theorem subtitlesWebvtt_eq {cues : List SubtitleCue} (visible : ∀ cue ∈ cues, cueLines cue.text ≠ []) :
    subtitlesWebvtt cues =
      ['\n'].intercalate ("WEBVTT".toList :: [] :: ((cues.zipIdx 1).map cueBlock).flatMap WebVtt.Block.lines) := by
  have entries : ∀ entry ∈ cues.zipIdx 1, cueLines entry.1.text ≠ [] := fun entry member =>
    visible entry.1 (List.fst_mem_of_mem_zipIdx member)
  have joined := intercalate_writtenLines entries []
  show ['\n'].intercalate ("WEBVTT".toList :: [] :: (cues.zipIdx 1).flatMap writtenLines) = _
  rw [List.intercalate_cons_cons, List.intercalate_cons_cons, joined]

/-- The file of the cues reads back as the cues if and only if no line of their texts has an arrow. -/
theorem parse_subtitlesWebvtt_iff {cues : List SubtitleCue} (visible : ∀ cue ∈ cues, cueLines cue.text ≠ [])
    (plain : ∀ cue ∈ cues, '\r' ∉ cue.text) :
    WebVtt.parse (subtitlesWebvtt cues) = some (cues.map SubtitleCue.exported) ↔
      ∀ cue ∈ cues, ∀ line ∈ cue.text.splitOn '\n', WebVtt.hasArrow line = false := by
  have sound : ∀ block ∈ (cues.zipIdx 1).map cueBlock, block.Sound := by
    intro block member
    obtain ⟨entry, inside, same⟩ := List.mem_map.mp member
    rw [← same]
    exact cueBlock_sound (visible entry.1 (List.fst_mem_of_mem_zipIdx inside))
  have lines : ∀ line ∈ ((cues.zipIdx 1).map cueBlock).flatMap WebVtt.Block.lines, '\n' ∉ line ∧ '\r' ∉ line := by
    intro line member
    obtain ⟨block, isBlock, inside⟩ := List.mem_flatMap.mp member
    obtain ⟨entry, isEntry, same⟩ := List.mem_map.mp isBlock
    rw [← same] at inside
    exact cueBlock_lines (plain entry.1 (List.fst_mem_of_mem_zipIdx isEntry)) line inside
  have exported : ((cues.zipIdx 1).map cueBlock).map WebVtt.Block.cue = cues.map SubtitleCue.exported := by
    rw [List.map_map]
    have same : WebVtt.Block.cue ∘ cueBlock = SubtitleCue.exported ∘ Prod.fst := rfl
    rw [same, ← List.map_map, List.zipIdx_map_fst]
  rw [subtitlesWebvtt_eq visible, ← exported, WebVtt.parse_written_iff sound lines]
  constructor
  · intro all cue member line inside
    rw [← List.zipIdx_map_fst 1 cues] at member
    obtain ⟨entry, isEntry, same⟩ := List.mem_map.mp member
    rw [← same] at inside
    cases arrow : WebVtt.hasArrow line with
    | false => rfl
    | true =>
      have kept : line ∈ (cueBlock entry).payload :=
        List.mem_filter.mpr ⟨inside, by rw [arrow_visible arrow]; rfl⟩
      rw [← arrow]
      exact all _ (List.mem_map_of_mem isEntry) line kept
  · intro all block member line inside
    obtain ⟨entry, isEntry, same⟩ := List.mem_map.mp member
    rw [← same] at inside
    exact all entry.1 (List.fst_mem_of_mem_zipIdx isEntry) line (mem_cueLines inside).1

end Blocks

section Survival

variable {u : Unicode}

/-- The cues of a boundary tile it, a boundary with a microsecond for each character has cues, and a
reader of their file gets them in order. -/
structure SubtitlesSurvive (utterances : List (SubtitleUtteranceEvidence u)) (boundary : Nat) : Prop where
  tiles : ∀ cues, distribute utterances boundary = some cues → Contiguous 0 cues boundary ∧ cues ≠ [] ∧
    cues.map (fun cue => (cue.text, cue.owner, cue.speaker)) =
      utterances.map fun utterance => (utterance.text, utterance.owner, utterance.speaker)
  fits : totalWeight utterances ≤ boundary → distribute utterances boundary ≠ none
  exported : ∀ cues, distribute utterances boundary = some cues →
    WebVtt.parse (subtitlesWebvtt cues) = some (cues.map SubtitleCue.exported)

theorem totalWeight_pos {utterances : List (SubtitleUtteranceEvidence u)} (some : utterances ≠ []) :
    0 < totalWeight utterances := by
  cases utterances with
  | nil => exact absurd rfl some
  | cons utterance rest =>
    have visible : 0 < utterance.text.length := List.length_pos_of_ne_nil utterance.filled
    have whole : totalWeight (utterance :: rest) = utterance.text.length + totalWeight rest := rfl
    omega

theorem distribute_eq {utterances : List (SubtitleUtteranceEvidence u)} {boundary : Nat} (some : utterances ≠ [])
    (positive : 0 < boundary) :
    distribute utterances boundary = allot boundary (totalWeight utterances) 0 utterances := by
  have weight := totalWeight_pos some
  rw [distribute, if_neg (by omega), if_neg (by simpa using some), if_neg (by omega)]

theorem distribute_tiles {utterances : List (SubtitleUtteranceEvidence u)} {boundary : Nat}
    (some : utterances ≠ []) (positive : 0 < boundary) {cues : List SubtitleCue}
    (distributed : distribute utterances boundary = .some cues) : Contiguous 0 cues boundary ∧
      cues.map (fun cue => (cue.text, cue.owner, cue.speaker)) =
        utterances.map fun utterance => (utterance.text, utterance.owner, utterance.speaker) := by
  rw [distribute_eq some positive] at distributed
  obtain ⟨tiles, texts⟩ := allot_contiguous distributed
  rw [Nat.mul_zero, Nat.zero_div, Nat.zero_add, Nat.mul_div_cancel _ (totalWeight_pos some)] at tiles
  exact ⟨tiles, texts⟩

/-- The texts of cues are those of their utterances. -/
theorem text_of_cue {utterances : List (SubtitleUtteranceEvidence u)} {cues : List SubtitleCue}
    (texts : cues.map (fun cue => (cue.text, cue.owner, cue.speaker)) =
      utterances.map fun utterance => (utterance.text, utterance.owner, utterance.speaker))
    {P : List Char → Prop} : (∀ cue ∈ cues, P cue.text) ↔ ∀ utterance ∈ utterances, P utterance.text := by
  have same : cues.map SubtitleCue.text = utterances.map SubtitleUtteranceEvidence.text := by
    have firsts := congrArg (List.map Prod.fst) texts
    rw [List.map_map, List.map_map] at firsts
    exact firsts
  have all := congrArg (fun texts => ∀ text ∈ texts, P text) same
  simpa only [List.forall_mem_map, eq_iff_iff] using all

theorem parse_iff {utterances : List (SubtitleUtteranceEvidence u)} {boundary : Nat} (some : utterances ≠ [])
    (positive : 0 < boundary) {cues : List SubtitleCue} (distributed : distribute utterances boundary = .some cues) :
    WebVtt.parse (subtitlesWebvtt cues) = .some (cues.map SubtitleCue.exported) ↔
      ∀ utterance ∈ utterances, ∀ line ∈ utterance.text.splitOn '\n', WebVtt.hasArrow line = false := by
  have texts := (distribute_tiles some positive distributed).2
  rw [← text_of_cue texts (P := fun text => ∀ line ∈ text.splitOn '\n', WebVtt.hasArrow line = false)]
  apply parse_subtitlesWebvtt_iff
  · exact (text_of_cue texts (P := fun text => cueLines text ≠ [])).mpr fun utterance _ =>
      utterance.cueLines_ne_nil
  · exact (text_of_cue texts (P := fun text => '\r' ∉ text)).mpr fun utterance _ => utterance.no_return

/-- Subtitles survive their export if and only if they cannot be timed or no line of an utterance has an
arrow. -/
theorem subtitles_survive_iff (u : Unicode) (utterances : List (SubtitleUtteranceEvidence u)) (boundary : Nat)
    (some : utterances ≠ []) (positive : 0 < boundary) :
    SubtitlesSurvive utterances boundary ↔ distribute utterances boundary = none ∨
      ∀ utterance ∈ utterances, ∀ line ∈ utterance.text.splitOn '\n', WebVtt.hasArrow line = false := by
  constructor
  · intro survive
    cases distributed : distribute utterances boundary with
    | none => exact .inl rfl
    | some cues => exact .inr ((parse_iff some positive distributed).mp (survive.exported cues distributed))
  · intro either
    refine ⟨?_, ?_, ?_⟩
    · intro cues distributed
      obtain ⟨tiles, texts⟩ := distribute_tiles some positive distributed
      refine ⟨tiles, ?_, texts⟩
      rintro rfl
      have boundless : 0 = boundary := tiles
      omega
    · intro enough
      rw [distribute_eq some positive]
      have timed := allot_isSome enough (totalWeight_pos some) 0 utterances
      exact Option.ne_none_iff_isSome.mpr timed
    · intro cues distributed
      apply (parse_iff some positive distributed).mpr
      cases either with
      | inl raised =>
        rw [raised] at distributed
        cases distributed
      | inr plain => exact plain

/-- A unit whose narrator says one text. -/
private def narrated (text : String) : SpeechPreparation where
  unitId := []
  mode := some .narratorVoiceover
  utterances := [⟨.narrator, text.toList, none, ⟨[], none⟩⟩]
  problems := []

private theorem narrated_text (text : String) (canonical : (projectSubtitleUtterances plainUnicode (narrated text)).map
    (List.map SubtitleUtteranceEvidence.text) = some [text.toList]) :
    ∃ utterances, projectSubtitleUtterances plainUnicode (narrated text) = some utterances ∧ utterances ≠ [] ∧
      utterances.map SubtitleUtteranceEvidence.text = [text.toList] := by
  obtain ⟨utterances, projected, texts⟩ := Option.map_eq_some_iff.mp canonical
  refine ⟨utterances, projected, ?_, texts⟩
  rintro rfl
  cases texts

theorem plain_text_survives : ∃ utterances,
    projectSubtitleUtterances plainUnicode (narrated "ab") = some utterances ∧ utterances ≠ [] ∧
      SubtitlesSurvive utterances 5 := by
  obtain ⟨utterances, projected, some, texts⟩ := narrated_text "ab" (by decide)
  refine ⟨utterances, projected, some, ?_⟩
  apply (subtitles_survive_iff plainUnicode utterances 5 some (by decide)).mpr
  refine .inr ?_
  intro utterance member
  have text := List.mem_map_of_mem (f := SubtitleUtteranceEvidence.text) member
  rw [texts, List.mem_singleton] at text
  rw [text]
  decide

/-- An arrow in the text makes a reader drop it. -/
theorem arrow_text_lost : ∃ utterances,
    projectSubtitleUtterances plainUnicode (narrated "a --> b") = some utterances ∧ utterances ≠ [] ∧
      ¬SubtitlesSurvive utterances 7 := by
  obtain ⟨utterances, projected, some, texts⟩ := narrated_text "a --> b" (by decide)
  refine ⟨utterances, projected, some, ?_⟩
  intro survives
  have weight : totalWeight utterances = 7 := by
    have lengths := congrArg (fun texts => (texts.map List.length).sum) texts
    rw [List.map_map] at lengths
    exact lengths
  obtain ⟨cues, distributed⟩ := Option.ne_none_iff_exists'.mp (survives.fits (le_of_eq weight))
  have plain := (parse_iff some (by decide) distributed).mp (survives.exported cues distributed)
  obtain ⟨utterance, member, text⟩ := List.mem_map.mp (texts ▸ List.mem_singleton_self "a --> b".toList)
  have line := plain utterance member
  rw [text] at line
  revert line
  decide

end Survival

end ArcReel.Speech
