import ArcReel.Lib.JsonObject

/-! `lib.reference_video.duration_migration`: the durations of the shots of a unit become the duration of
the unit. -/

namespace ArcReel.Review
open Lib

/-- `_positive_int`. -/
def positiveInt (value : Json) : Option Int := value.int?.filter (0 < ·)

structure ValidationMessage where
  key : String
  params : List (String × Json)

/-- The shots without their durations, and the sum of these. -/
def stripShots : List Json → List Json × Int × Bool
  | [] => ([], 0, false)
  | shot :: shots =>
    let rest := stripShots shots
    if shot.has "duration" then
      (shot.del "duration" :: rest.1, (positiveInt (shot.get "duration")).getD 0 + rest.2.1, true)
    else (shot :: rest.1, rest.2)

/-- `_strip_legacy_shot_durations`: the unit, the sum if there is one, and whether a field was there. -/
def stripLegacyShotDurations (unit : Json) : Json × Option Int × Bool :=
  match unit.get "shots" with
  | .arr shots =>
    let stripped := stripShots shots
    (unit.put "shots" (.arr stripped.1), some stripped.2.1 |>.filter (· ≠ 0), stripped.2.2)
  | _ => (unit, none, false)

/-- `resolve_duration_slot(..).seconds` for slots that are not empty. -/
def resolveDurationSlot (seconds : Int) (supportedDurations : List Int) : Int :=
  let slots := supportedDurations.dedup.insertionSort (· ≤ ·)
  match slots.find? (seconds ≤ ·) with
  | some slot => slot
  | none => slots.getLast?.getD seconds

/-- The bounds of `REFERENCE_UNIT_DURATION_RANGE`. -/
def unitDurationLow : Int := 1

def unitDurationHigh : Int := 300

def clampedMessage (unit : Json) (target clamped : Int) : ValidationMessage where
  key := "val_unit_duration_clamped"
  params := [("unit_id", unit.get "unit_id"), ("target", .int target), ("low", .int unitDurationLow),
    ("high", .int unitDurationHigh), ("clamped", .int clamped)]

def slottedMessage (unit : Json) (duration : Int) (supportedDurations : List Int) (slot : Int) :
    ValidationMessage where
  key := "val_unit_duration_slotted"
  params := [("unit_id", unit.get "unit_id"), ("duration", .int duration),
    ("durations", .arr ((supportedDurations.dedup.insertionSort (· ≤ ·)).map .int)), ("slot", .int slot)]

/-- The duration that a unit gets for the one it had. -/
def settleDuration (unit : Json) (target : Int) (supportedDurations : List Int) :
    Int × List ValidationMessage :=
  let clamped := min (max target unitDurationLow) unitDurationHigh
  let warnings := if clamped ≠ target then [clampedMessage unit target clamped] else []
  if supportedDurations.isEmpty then (clamped, warnings)
  else
    let slot := resolveDurationSlot clamped supportedDurations
    (slot, warnings ++
      if slot ≠ clamped then [slottedMessage unit clamped supportedDurations slot] else [])

/-- One unit: what it becomes, whether it changed, and the warnings. -/
def migrateUnit (unit : Json) (supportedDurations : List Int) : Json × Bool × List ValidationMessage :=
  if unit.isObj then
    let legacy := stripLegacyShotDurations unit
    if !legacy.2.2 && !unit.has "duration_override" then (unit, false, [])
    else
      let stripped := legacy.1.del "duration_override"
      match (positiveInt (stripped.get "duration_seconds")).or legacy.2.1 with
      | none => (stripped, true, [])
      | some target =>
        let settled := settleDuration stripped target supportedDurations
        (stripped.put "duration_seconds" (.int settled.1), true, settled.2)
  else (unit, false, [])

/-- What `migrate_unit_durations` makes of the content of a draft. -/
structure Migrated where
  content : Json
  changed : Bool
  warnings : List ValidationMessage

/-- `migrate_unit_durations(content.get("units"))`, in place; no supported durations are an empty list. -/
def migrateUnitDurations (content : Json) (supportedDurations : List Int) : Migrated :=
  match content.get "units" with
  | .arr units =>
    let migrated := units.map fun unit => migrateUnit unit supportedDurations
    ⟨content.put "units" (.arr (migrated.map fun unit => unit.1)), migrated.any fun unit => unit.2.1,
      migrated.flatMap fun unit => unit.2.2⟩
  | _ => ⟨content, false, []⟩

section Warnings

/-- Without warnings a duration is the one it was. -/
theorem settleDuration_fst {unit : Json} {target : Int} {supportedDurations : List Int}
    (silent : (settleDuration unit target supportedDurations).2 = []) :
    (settleDuration unit target supportedDurations).1 = target := by
  unfold settleDuration at silent ⊢
  by_cases moved : min (max target unitDurationLow) unitDurationHigh ≠ target
  · simp only [if_pos moved] at silent
    split at silent <;> simp at silent
  · simp only [if_neg moved] at silent ⊢
    rw [not_ne_iff] at moved
    split at silent
    · next empty => rw [if_pos empty, moved]
    · next listed =>
      rw [if_neg listed]
      split at silent
      · simp at silent
      · next slotted => rw [not_ne_iff.mp slotted, moved]

theorem get_stripLegacyShotDurations (unit : Json) {key : String} (apart : key ≠ "shots") :
    (stripLegacyShotDurations unit).1.get key = unit.get key := by
  unfold stripLegacyShotDurations
  split
  · exact Json.get_put_of_ne apart
  · rfl

/-- A migration without warnings keeps the seconds of every unit that has some. -/
theorem migrateUnit_keeps_seconds {unit : Json} {supportedDurations : List Int} {seconds : Int}
    (silent : (migrateUnit unit supportedDurations).2.2 = [])
    (had : positiveInt (unit.get "duration_seconds") = some seconds) :
    positiveInt ((migrateUnit unit supportedDurations).1.get "duration_seconds") = some seconds := by
  have read : positiveInt (((stripLegacyShotDurations unit).1.del "duration_override").get
      "duration_seconds") = some seconds := by
    rw [Json.get_del_of_ne (by decide), get_stripLegacyShotDurations unit (by decide), had]
  unfold migrateUnit at silent ⊢
  split
  · next object =>
    rw [if_pos object] at silent
    dsimp only at silent ⊢
    split
    · exact had
    · next legacy =>
      rw [if_neg legacy, read] at silent
      rw [read, Option.some_or]
      rw [Option.some_or] at silent
      dsimp only at silent ⊢
      rw [Json.get_put_self, settleDuration_fst silent]
      · have positive := (Option.filter_eq_some_iff.mp had).2
        exact Option.filter_eq_some_iff.mpr ⟨rfl, positive⟩
      · rw [Json.isObj_del]
        unfold stripLegacyShotDurations
        split
        · rw [Json.isObj_put, object]
        · exact object
  · exact had

/-- Only what changed is warned about. -/
theorem changed_of_warnings {content : Json} {supportedDurations : List Int}
    (warned : (migrateUnitDurations content supportedDurations).warnings ≠ []) :
    (migrateUnitDurations content supportedDurations).changed = true := by
  have silent : ∀ unit, (migrateUnit unit supportedDurations).2.1 = false →
      (migrateUnit unit supportedDurations).2.2 = [] := by
    intro unit same
    unfold migrateUnit at same ⊢
    dsimp only at same ⊢
    split_ifs at same ⊢
    · rfl
    · split at same <;> cases same
    · rfl
  unfold migrateUnitDurations at warned ⊢
  split at warned
  · next units =>
    obtain ⟨message, member⟩ := List.exists_mem_of_ne_nil _ warned
    obtain ⟨migrated, among, told⟩ := List.mem_flatMap.mp member
    apply List.any_eq_true.mpr
    refine ⟨migrated, among, ?_⟩
    obtain ⟨unit, _, same⟩ := List.mem_map.mp among
    by_contra unchanged
    rw [← same] at unchanged told
    rw [silent unit (Bool.eq_false_iff.mpr unchanged)] at told
    cases told
  · exact absurd rfl warned

end Warnings

end ArcReel.Review
