import ArcReel.Lib.PyText

/-! WebVTT files: how a reader cuts them into blocks and reads the cues, and what it reads from a file
that is written block by block. -/

namespace ArcReel.Lib.WebVtt
open PyText

/-- A cue as a reader gets it, in milliseconds. -/
structure Cue where
  start : Nat
  stop : Nat
  payload : List Char
  deriving DecidableEq, Repr

def hasArrow : List Char → Bool
  | '-' :: '-' :: '>' :: _ => true
  | _ :: rest => hasArrow rest
  | [] => false

section Timestamps

/-- The digits in front and the rest. -/
def digits (text : List Char) : List Char × List Char :=
  (text.takeWhile Char.isDigit, text.dropWhile Char.isDigit)

def value (digits : List Char) : Nat := Nat.ofDigitChars 10 digits 0

/-- The digits after a mark, if there are `width` of them. -/
def fieldAfter (mark : Char) (width : Nat) : List Char → Option (Nat × List Char)
  | c :: rest =>
    if c = mark && (digits rest).1.length == width then some (value (digits rest).1, (digits rest).2) else none
  | [] => none

/-- A timestamp with or without hours, and the rest of the line. -/
def timestamp (text : List Char) : Option (Nat × List Char) := do
  let (first, rest) := digits text
  if first.isEmpty then none
  let (second, rest) ← fieldAfter ':' 2 rest
  let (hours, minutes, seconds, rest) ←
    if first.length ≠ 2 || 59 < value first || rest.head? = some ':' then do
      let (third, rest) ← fieldAfter ':' 2 rest
      some (value first, second, third, rest)
    else some (0, value first, second, rest)
  let (millis, rest) ← fieldAfter '.' 3 rest
  if 59 < minutes || 59 < seconds then none
  some (((hours * 60 + minutes) * 60 + seconds) * 1000 + millis, rest)

def isBlankSpace (c : Char) : Bool := c == ' ' || c == '\t' || c == '\x0c' || c == '\n' || c == '\r'

def afterArrow : List Char → Option (List Char)
  | '-' :: '-' :: '>' :: rest => some rest
  | _ => none

/-- The times of a timing line; the settings behind them are left out. -/
def timings (line : List Char) : Option (Nat × Nat) := do
  let (start, rest) ← timestamp (line.dropWhile isBlankSpace)
  let rest ← afterArrow (rest.dropWhile isBlankSpace)
  let (stop, _) ← timestamp (rest.dropWhile isBlankSpace)
  some (start, stop)

end Timestamps

section Blocks

def finish (buffer : List (List Char)) (timing : Option (Option (Nat × Nat))) : Option Cue :=
  timing.join.map fun times => ⟨times.1, times.2, ['\n'].intercalate buffer⟩

/-- Collects a block from its line number `count` on: a second arrow ends it and begins the next one. -/
def collect (count : Nat) (buffer : List (List Char)) (timing : Option (Option (Nat × Nat))) :
    List (List Char) → Option Cue × List (List Char)
  | [] => (finish buffer timing, [])
  | line :: rest =>
    if hasArrow line then
      if count = 0 || (count = 1 && timing.isNone) then
        match timings line with
        | some times => collect (count + 1) [] (some (some times)) rest
        | none => collect (count + 1) buffer (some none) rest
      else (finish buffer timing, line :: rest)
    else if line.isEmpty then (finish buffer timing, rest)
    else collect (count + 1) (buffer ++ [line]) timing rest

/-- The cues of the blocks; every block takes a line. -/
def parseBlocks : Nat → List (List Char) → List Cue
  | 0, _ => []
  | fuel + 1, lines =>
    match lines.dropWhile List.isEmpty with
    | [] => []
    | line :: rest =>
      (collect 0 [] none (line :: rest)).1.toList ++ parseBlocks fuel (collect 0 [] none (line :: rest)).2

def isHeader (line : List Char) : Bool :=
  line = "WEBVTT".toList || "WEBVTT ".toList.isPrefixOf line || "WEBVTT\t".toList.isPrefixOf line

/-- The cues of a file, if it is one. -/
def parse (text : List Char) : Option (List Cue) :=
  match (unifyNewlines text).splitOn '\n' with
  | header :: rest =>
    if isHeader header then
      let body := rest.dropWhile fun line => !line.isEmpty && !hasArrow line
      some (parseBlocks body.length body)
    else none
  | [] => none

end Blocks

section Reading

/-- A text that does not go on with a digit. -/
def Stops (text : List Char) : Prop := ∀ c ∈ text.head?, c.isDigit = false

theorem digits_append {figures rest : List Char} (all : ∀ c ∈ figures, c.isDigit = true) (stops : Stops rest) :
    digits (figures ++ rest) = (figures, rest) := by
  have nothing : rest.takeWhile Char.isDigit = [] ∧ rest.dropWhile Char.isDigit = rest := by
    cases rest with
    | nil => exact ⟨rfl, rfl⟩
    | cons c rest =>
      have other : ¬c.isDigit = true := by
        rw [stops c rfl]
        nofun
      exact ⟨List.takeWhile_cons_of_neg other, List.dropWhile_cons_of_neg other⟩
  rw [digits, List.takeWhile_append_of_pos all, List.dropWhile_append_of_pos all, nothing.1, nothing.2,
    List.append_nil]

theorem fieldAfter_append (mark : Char) {figures rest : List Char} (all : ∀ c ∈ figures, c.isDigit = true)
    (stops : Stops rest) :
    fieldAfter mark figures.length (mark :: (figures ++ rest)) = some (value figures, rest) := by
  rw [fieldAfter, digits_append all stops]
  simp

/-- A timestamp with hours is read back. -/
theorem timestamp_append {hours minutes seconds millis rest : List Char}
    (figures : ∀ c ∈ hours ++ minutes ++ seconds ++ millis, c.isDigit = true) (some : hours ≠ [])
    (two : minutes.length = 2) (two' : seconds.length = 2) (three : millis.length = 3)
    (inHour : value minutes ≤ 59) (inMinute : value seconds ≤ 59) (stops : Stops rest) :
    timestamp (hours ++ ':' :: (minutes ++ ':' :: (seconds ++ '.' :: (millis ++ rest)))) =
      .some (((value hours * 60 + value minutes) * 60 + value seconds) * 1000 + value millis, rest) := by
  simp only [List.mem_append, or_imp, forall_and] at figures
  obtain ⟨⟨⟨first, second⟩, third⟩, fourth⟩ := figures
  have mark : ∀ (c : Char) (text : List Char), c.isDigit = false → Stops (c :: text) := by
    intro c text plain d same
    cases same
    exact plain
  have minute := fieldAfter_append ':' second (mark ':' (seconds ++ '.' :: (millis ++ rest)) (by decide))
  have second' := fieldAfter_append ':' third (mark '.' (millis ++ rest) (by decide))
  have milli := fieldAfter_append '.' fourth stops
  rw [two] at minute
  rw [two'] at second'
  rw [three] at milli
  unfold timestamp
  rw [digits_append first (mark ':' _ (by decide))]
  simp [minute, second', milli, some, Nat.not_lt.mpr inHour, Nat.not_lt.mpr inMinute]

theorem hasArrow_append (before after : List Char) : hasArrow (before ++ "-->".toList ++ after) = true := by
  induction before with
  | nil => rfl
  | cons c before ih =>
    rw [List.cons_append, List.cons_append]
    unfold hasArrow
    split
    · rfl
    · next same =>
      cases same
      exact ih
    · next none => cases none

theorem timings_written {start stop rest : List Char} {from' to' : Nat}
    (first : ∀ text, Stops text → timestamp (start ++ text) = some (from', text))
    (second : timestamp (stop ++ rest) = some (to', rest))
    (begins : ∀ c ∈ start.head?, isBlankSpace c = false) (begins' : ∀ c ∈ stop.head?, isBlankSpace c = false)
    (filled : start ≠ []) (filled' : stop ≠ []) :
    timings (start ++ " --> ".toList ++ (stop ++ rest)) = some (from', to') := by
  have kept : ∀ (text after : List Char), text ≠ [] → (∀ c ∈ text.head?, isBlankSpace c = false) →
      (text ++ after).dropWhile isBlankSpace = text ++ after := by
    intro text after nonempty visible
    cases text with
    | nil => exact absurd rfl nonempty
    | cons c text => exact List.dropWhile_cons_of_neg (by rw [visible c rfl]; nofun)
  have arrow : (" --> ".toList ++ (stop ++ rest)).dropWhile isBlankSpace =
      '-' :: '-' :: '>' :: ' ' :: (stop ++ rest) := rfl
  have behind : (' ' :: (stop ++ rest)).dropWhile isBlankSpace = stop ++ rest := by
    rw [List.dropWhile_cons_of_pos (by decide), kept stop rest filled' begins']
  unfold timings
  rw [List.append_assoc, kept _ _ filled begins, first _ (by intro c same; cases same; decide)]
  simp only [Option.bind_eq_bind, Option.bind_some, arrow, afterArrow, behind, second]

end Reading

section Written

/-- A block as it is written: its identifier, its timing line and its payload lines. -/
structure Block where
  identifier : List Char
  timing : List Char
  start : Nat
  stop : Nat
  payload : List (List Char)

/-- A reader takes the first two lines for what they are, and the payload has lines. -/
structure Block.Sound (block : Block) : Prop where
  identifier : block.identifier ≠ [] ∧ hasArrow block.identifier = false
  timing : hasArrow block.timing = true ∧ timings block.timing = some (block.start, block.stop)
  payload : block.payload ≠ [] ∧ [] ∉ block.payload

def Block.lines (block : Block) : List (List Char) :=
  block.identifier :: block.timing :: (block.payload ++ [[]])

def Block.cue (block : Block) : Cue := ⟨block.start, block.stop, ['\n'].intercalate block.payload⟩

theorem collect_plain {lines : List (List Char)} (plain : ∀ line ∈ lines, hasArrow line = false)
    (filled : [] ∉ lines) (count : Nat) (buffer : List (List Char)) (timing : Option (Option (Nat × Nat)))
    (rest : List (List Char)) : collect count buffer timing (lines ++ rest) =
      collect (count + lines.length) (buffer ++ lines) timing rest := by
  induction lines generalizing count buffer with
  | nil => rw [List.append_nil]; rfl
  | cons line lines ih =>
    obtain ⟨here, later⟩ := List.forall_mem_cons.mp plain
    rw [List.mem_cons, not_or] at filled
    have some : line.isEmpty = false := List.isEmpty_eq_false_iff.mpr (Ne.symm filled.1)
    rw [List.cons_append, collect, here, some]
    simp only [Bool.false_eq_true, if_false]
    rw [ih later filled.2, List.append_assoc, List.length_cons]
    congr 1
    omega

theorem collect_head {block : Block} (sound : block.Sound) (rest : List (List Char)) :
    collect 0 [] none (block.identifier :: block.timing :: rest) =
      collect 2 [] (some (some (block.start, block.stop))) rest := by
  have some : block.identifier.isEmpty = false := List.isEmpty_eq_false_iff.mpr sound.identifier.1
  rw [collect, sound.identifier.2, some]
  simp only [Bool.false_eq_true, if_false]
  rw [collect, sound.timing.1, sound.timing.2]
  rfl

/-- A block without arrows in its payload is read as its cue. -/
theorem collect_block {block : Block} (sound : block.Sound)
    (plain : ∀ line ∈ block.payload, hasArrow line = false) (rest : List (List Char)) :
    collect 0 [] none (block.lines ++ rest) = (some block.cue, rest) := by
  have spelled : block.lines ++ rest = block.identifier :: block.timing :: (block.payload ++ [] :: rest) := by
    simp [Block.lines]
  rw [spelled, collect_head sound, collect_plain plain sound.payload.2, collect]
  rfl

theorem intercalate_append {sep : Char} {lines more : List (List Char)} (filled : lines ≠ []) (filled' : more ≠ []) :
    [sep].intercalate (lines ++ more) = [sep].intercalate lines ++ sep :: [sep].intercalate more := by
  induction lines with
  | nil => exact absurd rfl filled
  | cons line lines ih =>
    cases lines with
    | nil =>
      rw [List.singleton_append, List.intercalate_cons_of_ne_nil filled', List.intercalate_singleton,
        List.append_assoc]
      rfl
    | cons next lines =>
      rw [List.cons_append, List.cons_append, List.intercalate_cons_cons, ← List.cons_append, ih nofun,
        List.intercalate_cons_cons]
      simp only [List.append_assoc]

theorem intercalate_longer (before after : List (List Char)) {line : List Char} (filled : line ≠ []) :
    ∃ more, more ≠ [] ∧ ['\n'].intercalate (before ++ line :: after) = ['\n'].intercalate before ++ more := by
  cases before with
  | nil =>
    refine ⟨['\n'].intercalate (line :: after), ?_, rfl⟩
    cases after with
    | nil => simpa using filled
    | cons next after =>
      rw [List.intercalate_cons_cons]
      exact fun empty => filled (List.append_eq_nil_iff.mp (List.append_eq_nil_iff.mp empty).1).1
  | cons first before => exact ⟨_, List.cons_ne_nil _ _, intercalate_append nofun nofun⟩

/-- An arrow in the payload cuts the payload off. -/
theorem collect_cut {block : Block} (sound : block.Sound) {line : List Char} (inside : line ∈ block.payload)
    (arrow : hasArrow line = true) (rest : List (List Char)) :
    ∃ cue, (collect 0 [] none (block.lines ++ rest)).1 = some cue ∧ cue ≠ block.cue := by
  let before := block.payload.takeWhile fun line => !hasArrow line
  cases split : block.payload.dropWhile fun line => !hasArrow line with
  | nil =>
    have plain := List.dropWhile_eq_nil_iff.mp split line inside
    rw [arrow] at plain
    cases plain
  | cons first after =>
    have whole : block.payload = before ++ first :: after := by
      rw [← split]
      exact List.takeWhile_append_dropWhile.symm
    have plain : ∀ line ∈ before, hasArrow line = false := by
      intro line member
      simpa using List.mem_takeWhile_imp member
    have filled : [] ∉ before := by
      intro member
      exact sound.payload.2 (whole ▸ List.mem_append_left _ member)
    have isArrow : hasArrow first = true := by
      have stops := @List.head_dropWhile_not _ (fun line => !hasArrow line) block.payload (by rw [split]; simp)
      simpa [split] using stops
    have spelled : block.lines ++ rest =
        block.identifier :: block.timing :: (before ++ first :: (after ++ [] :: rest)) := by
      simp [Block.lines, whole]
    refine ⟨⟨block.start, block.stop, ['\n'].intercalate before⟩, ?_, ?_⟩
    · rw [spelled, collect_head sound, collect_plain plain filled, collect, isArrow, if_pos rfl, if_neg (by simp)]
      rfl
    · intro same
      have payloads : ['\n'].intercalate before = ['\n'].intercalate block.payload := congrArg Cue.payload same
      have some : first ≠ [] := by
        rintro rfl
        cases isArrow
      obtain ⟨more, nonempty, longer⟩ := intercalate_longer before after some
      rw [whole, longer] at payloads
      exact nonempty (List.append_cancel_left (payloads.symm.trans (List.append_nil _).symm))

/-- The blocks are read as their cues if and only if no payload line has an arrow. -/
theorem parseBlocks_iff {blocks : List Block} (sound : ∀ block ∈ blocks, block.Sound) {fuel : Nat}
    (enough : blocks.length < fuel) :
    parseBlocks fuel (blocks.flatMap Block.lines) = blocks.map Block.cue ↔
      ∀ block ∈ blocks, ∀ line ∈ block.payload, hasArrow line = false := by
  induction blocks generalizing fuel with
  | nil =>
    cases fuel with
    | zero => cases enough
    | succ fuel => exact ⟨fun _ => nofun, fun _ => rfl⟩
  | cons block blocks ih =>
    obtain ⟨here, later⟩ := List.forall_mem_cons.mp sound
    cases fuel with
    | zero => cases enough
    | succ fuel =>
      have some : block.identifier.isEmpty = false := List.isEmpty_eq_false_iff.mpr here.identifier.1
      have unfolded : parseBlocks (fuel + 1) ((block :: blocks).flatMap Block.lines) =
          (collect 0 [] none (block.lines ++ blocks.flatMap Block.lines)).1.toList ++
            parseBlocks fuel (collect 0 [] none (block.lines ++ blocks.flatMap Block.lines)).2 := by
        rw [List.flatMap_cons, parseBlocks]
        have visible : (block.lines ++ blocks.flatMap Block.lines).dropWhile List.isEmpty =
            block.lines ++ blocks.flatMap Block.lines := List.dropWhile_cons_of_neg (by rw [some]; nofun)
        rw [visible]
        rfl
      rw [unfolded, List.map_cons, List.forall_mem_cons]
      by_cases plain : ∀ line ∈ block.payload, hasArrow line = false
      · rw [collect_block here plain]
        simp only [Option.toList_some, List.singleton_append, List.cons.injEq, true_and]
        rw [ih later (Nat.lt_of_succ_lt_succ enough)]
        exact (and_iff_right plain).symm
      · have cut := plain
        push Not at cut
        obtain ⟨line, inside, arrow⟩ := cut
        obtain ⟨cue, first, other⟩ := collect_cut here inside (by simpa using arrow) (blocks.flatMap Block.lines)
        rw [first]
        constructor
        · intro same
          exact absurd (List.cons.inj same).1 other
        · intro all
          exact absurd all.1 plain

theorem not_mem_intercalate {sep c : Char} (apart : c ≠ sep) {lines : List (List Char)}
    (plain : ∀ line ∈ lines, c ∉ line) : c ∉ [sep].intercalate lines := by
  induction lines with
  | nil => exact List.not_mem_nil
  | cons line lines ih =>
    obtain ⟨here, later⟩ := List.forall_mem_cons.mp plain
    cases lines with
    | nil => rwa [List.intercalate_singleton]
    | cons next lines =>
      rw [List.intercalate_cons_cons, List.append_assoc, List.mem_append, List.singleton_append, List.mem_cons]
      rintro (inside | same | inside)
      · exact here inside
      · exact apart same
      · exact ih later inside

/-- A text without carriage returns stays as it is. -/
theorem unifyNewlines_eq_self {text : List Char} (plain : '\r' ∉ text) : unifyNewlines text = text := by
  induction text with
  | nil => rfl
  | cons c text ih =>
    rw [List.mem_cons, not_or] at plain
    unfold unifyNewlines
    split
    · next same => exact absurd (List.cons.inj same).1 (Ne.symm plain.1)
    · next same => exact absurd (List.cons.inj same).1 (Ne.symm plain.1)
    · next same =>
      cases same
      rw [ih plain.2]
    · next same => cases same

/-- A file of blocks is read as their cues if and only if no payload line has an arrow. -/
theorem parse_written_iff {blocks : List Block} (sound : ∀ block ∈ blocks, block.Sound)
    (lines : ∀ line ∈ blocks.flatMap Block.lines, '\n' ∉ line ∧ '\r' ∉ line) :
    parse (['\n'].intercalate ("WEBVTT".toList :: [] :: blocks.flatMap Block.lines)) =
        some (blocks.map Block.cue) ↔
      ∀ block ∈ blocks, ∀ line ∈ block.payload, hasArrow line = false := by
  have newlines : ∀ line ∈ "WEBVTT".toList :: [] :: blocks.flatMap Block.lines, '\n' ∉ line := by
    refine List.forall_mem_cons.mpr ⟨by decide, List.forall_mem_cons.mpr ⟨by simp, ?_⟩⟩
    exact fun line member => (lines line member).1
  have returns : '\r' ∉ ['\n'].intercalate ("WEBVTT".toList :: [] :: blocks.flatMap Block.lines) := by
    apply not_mem_intercalate (by decide)
    refine List.forall_mem_cons.mpr ⟨by decide, List.forall_mem_cons.mpr ⟨by simp, ?_⟩⟩
    exact fun line member => (lines line member).2
  have enough : ∀ blocks : List Block, blocks.length < ([] :: blocks.flatMap Block.lines).length := by
    intro blocks
    induction blocks with
    | nil => simp
    | cons block blocks ih =>
      simp only [List.length_cons, List.flatMap_cons, List.length_append, Block.lines] at ih ⊢
      omega
  have blank : parseBlocks ([] :: blocks.flatMap Block.lines).length ([] :: blocks.flatMap Block.lines) =
      parseBlocks ([] :: blocks.flatMap Block.lines).length (blocks.flatMap Block.lines) := rfl
  rw [parse, unifyNewlines_eq_self returns, List.splitOn_intercalate _ newlines nofun]
  show (if isHeader "WEBVTT".toList then _ else none) = _ ↔ _
  rw [if_pos (by decide), Option.some.injEq, List.dropWhile_cons_of_neg (by simp), blank]
  exact parseBlocks_iff sound (enough blocks)

end Written

end ArcReel.Lib.WebVtt
