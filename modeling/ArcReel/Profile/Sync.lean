import Mathlib
import ArcReel.Profile.Manifest

/-! What a sync does to one path depends on that path alone, and what it leaves to the user. -/

namespace ArcReel.Profile
open Lib

/-- Everything a sync knows of one path. -/
structure Slot where
  file : Option File
  entry : Option Entry
  delivered : List Bytes
  adopted : List Bytes

/-- The contents recorded for the path. -/
def recordedAt (path : String) (contents : List (String × Bytes)) : List Bytes :=
  (contents.filter (·.1 = path)).map Prod.snd

def Work.slot (w : Work) (path : String) : Slot :=
  ⟨w.project.get? path, w.entries.get? path, recordedAt path w.delivered,
    recordedAt path w.adopted⟩

def State.slot (s : State) (path : String) : Slot :=
  ⟨s.project.get? path, s.manifest.get? path, recordedAt path s.delivered,
    recordedAt path s.adopted⟩

theorem mem_recordedAt {path : String} {content : Bytes} {contents : List (String × Bytes)} :
    content ∈ recordedAt path contents ↔ (path, content) ∈ contents := by
  simp [recordedAt]

theorem recordedAt_append_self (path : String) (content : Bytes) (contents : List (String × Bytes)) :
    recordedAt path (contents ++ [(path, content)]) = recordedAt path contents ++ [content] := by
  simp [recordedAt]

theorem recordedAt_append_other {path other : String} (apart : other ≠ path) (content : Bytes)
    (contents : List (String × Bytes)) :
    recordedAt other (contents ++ [(path, content)]) = recordedAt other contents := by
  simp [recordedAt, apart.symm]

section Row

variable (sha256 : Bytes → String) (now : Nat)

/-- A row as it shows on its own path. -/
def Slot.apply (slot : Slot) (row : Decision) (content : Bytes) : Slot :=
  match row with
  | .firstDelivery | .upgrade =>
    ⟨some ⟨content, false⟩, some (profileActiveEntry sha256 content), slot.delivered ++ [content],
      slot.adopted⟩
  | .converged | .adopt =>
    ⟨slot.file, some (profileActiveEntry sha256 content), slot.delivered, slot.adopted ++ [content]⟩
  | .prune => ⟨none, some (tombstoneEntry now), slot.delivered, slot.adopted⟩
  | .userDeleted | .doubleDelete =>
    ⟨slot.file, some (tombstoneEntry now), slot.delivered, slot.adopted⟩
  | .restored | .orphanRestored => ⟨slot.file, none, slot.delivered, slot.adopted⟩
  | .inAgreement | .userModified | .orphaned | .userOnly | .stillDeleted | .bothMissing
  | .collision => slot

def Slot.row (slot : Slot) (p : Option Bytes) : Option Decision :=
  decision (p.map sha256) (slot.file.map fun file => sha256 file.content) slot.entry

def Slot.decide (slot : Slot) (p : Option Bytes) : Slot :=
  match slot.row sha256 p with
  | some row => slot.apply sha256 now row (p.getD [])
  | none => slot

variable {sha256 now} {w : Work} {path other : String}

theorem slot_applyRow (row : Decision) (content : Bytes) :
    (applyRow sha256 now row content path w).slot path =
      (w.slot path).apply sha256 now row content := by
  cases row <;>
    simp only [applyRow, Work.slot, Slot.apply, Dict.get?_set, Dict.get?_erase, if_pos,
      recordedAt_append_self]

theorem slot_applyRow_other (apart : other ≠ path) (row : Decision) (content : Bytes) :
    (applyRow sha256 now row content path w).slot other = w.slot other := by
  cases row <;>
    simp only [applyRow, Work.slot, Dict.get?_set, Dict.get?_erase, if_neg apart,
      recordedAt_append_other apart]

variable {profile : Dict String Bytes} {refused : List String}

theorem applyDecision_eq : applyDecision sha256 now profile w path =
    match (w.slot path).row sha256 (profile.get? path) with
    | some row => applyRow sha256 now row ((profile.get? path).getD []) path w
    | none => w := rfl

theorem slot_syncPath : (syncPath sha256 now profile refused w path).slot path =
    if path ∈ refused then w.slot path else (w.slot path).decide sha256 now (profile.get? path) := by
  unfold syncPath
  by_cases out : path ∈ refused
  · rw [if_pos out, if_pos out]
    rfl
  · rw [if_neg out, if_neg out]
    rw [applyDecision_eq, Slot.decide]
    cases (w.slot path).row sha256 (profile.get? path) with
    | some row => exact slot_applyRow row _
    | none => rfl

theorem slot_syncPath_other (apart : other ≠ path) :
    (syncPath sha256 now profile refused w path).slot other = w.slot other := by
  unfold syncPath
  by_cases out : path ∈ refused
  · rw [if_pos out]
    rfl
  · rw [if_neg out]
    rw [applyDecision_eq]
    cases (w.slot path).row sha256 (profile.get? path) with
    | some row => exact slot_applyRow_other apart row _
    | none => rfl

/-- The loop visits every path at most once. -/
theorem slot_foldl {keys : List String} (nodup : keys.Nodup) :
    (keys.foldl (syncPath sha256 now profile refused) w).slot path =
      if path ∈ keys ∧ path ∉ refused then (w.slot path).decide sha256 now (profile.get? path)
      else w.slot path := by
  induction keys generalizing w with
  | nil => simp
  | cons key keys ih =>
    rw [List.foldl_cons, ih nodup.of_cons]
    by_cases same : path = key
    · have absent : path ∉ keys := same ▸ (List.nodup_cons.mp nodup).1
      rw [if_neg (fun both => absent both.1), same, slot_syncPath]
      by_cases out : key ∈ refused <;> simp [out]
    · rw [slot_syncPath_other same]
      simp [same]

end Row

section Sync

variable {sha256 : Bytes → String} {now : Nat} {refused : List String} {s : State} {path : String}

theorem nodup_allKeys (s : State) : (allKeys s).Nodup :=
  (List.perm_insertionSort _ _).nodup_iff.mpr (List.nodup_dedup _)

theorem mem_allKeys : path ∈ allKeys s ↔
    path ∈ s.profile.keys ∨ path ∈ s.project.keys ∨ path ∈ s.manifest.keys := by
  unfold allKeys
  rw [(List.perm_insertionSort _ _).mem_iff, List.mem_dedup]
  simp

/-- A path on none of the three sides has no row. -/
theorem decide_of_not_mem (absent : path ∉ allKeys s) :
    (s.slot path).decide sha256 now (s.profile.get? path) = s.slot path := by
  have none : path ∉ s.profile.keys ∧ path ∉ s.project.keys ∧ path ∉ s.manifest.keys := by
    simpa [mem_allKeys] using absent
  have noProfile := (Dict.get?_eq_none_iff s.profile path).mpr none.1
  have noFile := (Dict.get?_eq_none_iff s.project path).mpr none.2.1
  have noEntry := (Dict.get?_eq_none_iff s.manifest path).mpr none.2.2
  simp [Slot.decide, Slot.row, State.slot, noProfile, noFile, noEntry, decision]

theorem slot_loop {keys : List String} (nodup : keys.Nodup) :
    (keys.foldl (syncPath sha256 now s.profile refused)
      ⟨s.project, s.manifest, [], s.delivered, s.adopted⟩).slot path =
      if path ∈ keys ∧ path ∉ refused then (s.slot path).decide sha256 now (s.profile.get? path)
      else s.slot path := slot_foldl nodup

/-- A completed sync decides every path it can handle. -/
theorem slot_sync_saved (filled : s.profile.keys ≠ []) :
    (sync sha256 now refused .saved s).slot path =
      if path ∈ refused then s.slot path
      else (s.slot path).decide sha256 now (s.profile.get? path) := by
  unfold sync
  rw [if_neg filled]
  refine Eq.trans (slot_loop (nodup_allKeys s)) ?_
  by_cases out : path ∈ refused
  · simp [out]
  · by_cases visited : path ∈ allKeys s
    · simp [out, visited]
    · simp [out, visited, decide_of_not_mem visited]

/-- What a crash leaves of a decision: the file, but neither the entry nor an adoption. -/
def Slot.unsaved (slot decided : Slot) : Slot :=
  ⟨decided.file, slot.entry, decided.delivered, slot.adopted⟩

theorem slot_sync_crashed (filled : s.profile.keys ≠ []) (visited : Nat) :
    (sync sha256 now refused (.crashed visited) s).slot path =
      if path ∈ (allKeys s).take visited ∧ path ∉ refused then
        (s.slot path).unsaved ((s.slot path).decide sha256 now (s.profile.get? path))
      else s.slot path := by
  have loop := @slot_loop sha256 now refused s path _
    ((nodup_allKeys s).sublist (List.take_sublist visited _))
  unfold sync
  rw [if_neg filled]
  split_ifs with reached
  · rw [if_pos reached] at loop
    rw [← loop]
    rfl
  · rw [if_neg reached] at loop
    simp only [Work.slot, State.slot, Slot.mk.injEq] at loop ⊢
    exact ⟨loop.1, trivial, loop.2.2.1, trivial⟩

/-- The three things that can happen to a path in a sync. -/
theorem slot_sync_cases (fate : Fate) :
    (sync sha256 now refused fate s).slot path = s.slot path ∨
    (sync sha256 now refused fate s).slot path =
      (s.slot path).decide sha256 now (s.profile.get? path) ∨
    (sync sha256 now refused fate s).slot path =
      (s.slot path).unsaved ((s.slot path).decide sha256 now (s.profile.get? path)) := by
  by_cases empty : s.profile.keys = []
  · left
    unfold sync
    rw [if_pos empty]
  · cases fate with
    | saved =>
      rw [slot_sync_saved empty]
      by_cases out : path ∈ refused <;> simp [out]
    | crashed visited =>
      rw [slot_sync_crashed empty]
      by_cases reached : path ∈ (allKeys s).take visited ∧ path ∉ refused <;> simp [reached]

end Sync

section Decide

variable {sha256 : Bytes → String} {now : Nat} {slot : Slot} {p : Option Bytes}

/-- A file whose hash is not that of its baseline is left alone. -/
theorem file_decide {file : File} (present : slot.file = some file)
    (changed : ∀ size, slot.entry ≠ some (.active (sha256 file.content) size)) :
    (slot.decide sha256 now p).file = some file := by
  unfold Slot.decide Slot.row
  rw [present, Option.map_some]
  cases known : slot.entry with
  | none =>
    cases p with
    | none => simp [decision, Slot.apply, present]
    | some content =>
      by_cases same : sha256 file.content = sha256 content <;>
        simp [decision, Slot.apply, present, same]
  | some entry =>
    cases entry with
    | tombstone deletedAt => cases p <;> simp [decision, Slot.apply, present]
    | active baseline size =>
      have apart : sha256 file.content ≠ baseline := by
        intro same
        rw [← same] at known
        exact changed size known
      cases p with
      | none => simp [decision, Slot.apply, present, apart]
      | some content =>
        by_cases same : sha256 file.content = sha256 content
        · have other : baseline ≠ sha256 content := fun equal => apart (same.trans equal.symm)
          simp [decision, Slot.apply, present, same, other, Ne.symm other]
        · simp [decision, Slot.apply, present, apart, same]

/-- A missing file with an entry stays missing, and keeps an entry. -/
theorem decide_missing (missing : slot.file = none) (recorded : slot.entry.isSome = true) :
    (slot.decide sha256 now p).file = none ∧ (slot.decide sha256 now p).entry.isSome = true := by
  obtain ⟨entry, known⟩ := Option.isSome_iff_exists.mp recorded
  unfold Slot.decide Slot.row
  rw [missing, known, Option.map_none]
  cases p <;> cases entry <;> simp [decision, Slot.apply, missing, known]

/-- A file that a row puts where there was none is on record. -/
theorem entry_decide (missing : slot.file = none)
    (present : (slot.decide sha256 now p).file.isSome = true) :
    (slot.decide sha256 now p).entry.isSome = true := by
  cases known : slot.entry with
  | some entry =>
    have absent := (@decide_missing sha256 now slot p missing (by rw [known]; rfl)).1
    rw [absent] at present
    cases present
  | none =>
    unfold Slot.decide Slot.row at present ⊢
    rw [missing, known, Option.map_none] at present ⊢
    cases p with
    | none => simp [decision, missing] at present
    | some content => simp [decision, Slot.apply]

/-- Every baseline is the hash of a content that was delivered or adopted. -/
def Slot.Grounded (sha256 : Bytes → String) (slot : Slot) : Prop :=
  ∀ baseline size, slot.entry = some (.active baseline size) →
    ∃ content, sha256 content = baseline ∧ (content ∈ slot.delivered ∨ content ∈ slot.adopted)

theorem grounded_apply (grounded : slot.Grounded sha256) (row : Decision) (content : Bytes) :
    (slot.apply sha256 now row content).Grounded sha256 := by
  intro baseline size found
  cases row with
  | firstDelivery | upgrade | converged | adopt =>
    simp only [Slot.apply, Option.some.injEq, profileActiveEntry, Entry.active.injEq] at found
    exact ⟨content, found.1, by simp [Slot.apply]⟩
  | userDeleted | prune | doubleDelete => simp [Slot.apply, tombstoneEntry] at found
  | restored | orphanRestored => simp [Slot.apply] at found
  | inAgreement | userModified | orphaned | userOnly | stillDeleted | bothMissing | collision =>
    exact grounded baseline size found

theorem delivered_apply (row : Decision) (content : Bytes) :
    slot.delivered ⊆ (slot.apply sha256 now row content).delivered := by
  cases row <;> simp [Slot.apply]

theorem grounded_decide (grounded : slot.Grounded sha256) :
    (slot.decide sha256 now p).Grounded sha256 := by
  unfold Slot.decide
  cases slot.row sha256 p with
  | none => exact grounded
  | some row => exact grounded_apply grounded row _

theorem delivered_decide : slot.delivered ⊆ (slot.decide sha256 now p).delivered := by
  unfold Slot.decide
  cases slot.row sha256 p with
  | none => exact List.Subset.refl _
  | some row => exact delivered_apply row _

theorem grounded_unsaved (grounded : slot.Grounded sha256) :
    (slot.unsaved (slot.decide sha256 now p)).Grounded sha256 := by
  intro baseline size found
  obtain ⟨content, hashed, either⟩ := grounded baseline size found
  refine ⟨content, hashed, ?_⟩
  cases either with
  | inl delivered => exact .inl (delivered_decide delivered)
  | inr adopted => exact .inr adopted

end Decide

section Runs

variable {sha256 : Bytes → String} {s t : State}

def Grounded (sha256 : Bytes → String) (s : State) : Prop :=
  ∀ path, (s.slot path).Grounded sha256

theorem grounded_sync (grounded : Grounded sha256 s) (now : Nat) (refused : List String)
    (fate : Fate) : Grounded sha256 (sync sha256 now refused fate s) := by
  intro path
  rcases @slot_sync_cases sha256 now refused s path fate with same | decided | crashed
  · rw [same]
    exact grounded path
  · rw [decided]
    exact grounded_decide (grounded path)
  · rw [crashed]
    exact grounded_unsaved (grounded path)

theorem grounded_step {next : Step} (grounded : Grounded sha256 s)
    (stepped : step sha256 s next = some t) : Grounded sha256 t := by
  cases next with
  | sync now refused fate =>
    rw [← Option.some.inj stepped]
    exact grounded_sync grounded now refused fate
  | upgrade profile =>
    rw [← Option.some.inj stepped]
    exact grounded
  | write path content =>
    rw [← Option.some.inj stepped]
    exact grounded
  | remove path =>
    rw [← Option.some.inj stepped]
    exact grounded

theorem grounded_fullReset (profile : Dict String Bytes) (refused : List String) :
    Grounded sha256 (fullReset sha256 profile refused) := by
  intro path baseline size found
  simp only [State.slot, fullReset, Dict.get?_mapValues, Option.map_eq_some_iff,
    profileActiveEntry, Entry.active.injEq] at found
  obtain ⟨content, copied, hashed, -⟩ := found
  refine ⟨content, hashed, .inl ?_⟩
  simp only [State.slot, fullReset, mem_recordedAt]
  exact (Dict.get?_eq_some_iff _ _ _).mp copied

/-- A sync leaves every file alone whose content no sync delivered or adopted. -/
theorem file_sync (injective : Function.Injective sha256) (grounded : Grounded sha256 s)
    {path : String} {file : File} (present : s.project.get? path = some file)
    (undelivered : (path, file.content) ∉ s.delivered) (unadopted : (path, file.content) ∉ s.adopted)
    (now : Nat) (refused : List String) (fate : Fate) :
    (sync sha256 now refused fate s).project.get? path = some file := by
  have changed : ∀ size, (s.slot path).entry ≠ some (.active (sha256 file.content) size) := by
    intro size found
    obtain ⟨content, hashed, either⟩ := grounded path _ size found
    rw [injective hashed] at either
    cases either with
    | inl delivered => exact undelivered (mem_recordedAt.mp delivered)
    | inr adopted => exact unadopted (mem_recordedAt.mp adopted)
  have kept : ((s.slot path).decide sha256 now (s.profile.get? path)).file = some file :=
    file_decide present changed
  change ((sync sha256 now refused fate s).slot path).file = some file
  rcases @slot_sync_cases sha256 now refused s path fate with same | decided | crashed
  · rw [same]
    exact present
  · rw [decided]
    exact kept
  · rw [crashed]
    exact kept

/-- A missing file that is on record stays missing and on record in a sync. -/
theorem missing_sync {path : String} (missing : s.project.get? path = none)
    (recorded : (s.manifest.get? path).isSome = true) (now : Nat) (refused : List String)
    (fate : Fate) :
    (sync sha256 now refused fate s).project.get? path = none ∧
      ((sync sha256 now refused fate s).manifest.get? path).isSome = true := by
  have decided := @decide_missing sha256 now (s.slot path) (s.profile.get? path) missing recorded
  change ((sync sha256 now refused fate s).slot path).file = none ∧
    ((sync sha256 now refused fate s).slot path).entry.isSome = true
  rcases @slot_sync_cases sha256 now refused s path fate with same | saved | crashed
  · rw [same]
    exact ⟨missing, recorded⟩
  · rw [saved]
    exact decided
  · rw [crashed]
    exact ⟨decided.1, recorded⟩

/-- The syncs among the steps run while the path is missing. -/
def missingAtSync (path : String) (s : State) : Step → Bool
  | .sync _ _ _ => (s.project.get? path).isNone
  | _ => true

theorem recorded_step {path : String} {next : Step}
    (recorded : (s.manifest.get? path).isSome = true) (missing : missingAtSync path s next = true)
    (stepped : step sha256 s next = some t) : (t.manifest.get? path).isSome = true := by
  cases next with
  | sync now refused fate =>
    rw [← Option.some.inj stepped]
    exact (missing_sync (Option.isNone_iff_eq_none.mp missing) recorded now refused fate).2
  | upgrade profile =>
    rw [← Option.some.inj stepped]
    exact recorded
  | write path content =>
    rw [← Option.some.inj stepped]
    exact recorded
  | remove path =>
    rw [← Option.some.inj stepped]
    exact recorded

/-- A completed sync records what it puts where there was no file. -/
theorem recorded_sync {path : String} (missing : s.project.get? path = none) (now : Nat)
    (refused : List String)
    (created : ((sync sha256 now refused .saved s).project.get? path).isSome = true) :
    ((sync sha256 now refused .saved s).manifest.get? path).isSome = true := by
  change ((sync sha256 now refused .saved s).slot path).file.isSome = true at created
  change ((sync sha256 now refused .saved s).slot path).entry.isSome = true
  by_cases empty : s.profile.keys = []
  · unfold sync at created
    rw [if_pos empty] at created
    have absent : (s.slot path).file = none := missing
    rw [absent] at created
    cases created
  · rw [slot_sync_saved empty] at created ⊢
    by_cases out : path ∈ refused
    · rw [if_pos out] at created
      have absent : (s.slot path).file = none := missing
      rw [absent] at created
      cases created
    · rw [if_neg out] at created ⊢
      exact entry_decide missing created

/-- In every run from a reset: a sync leaves alone a file whose content no sync delivered or
adopted; a path on record is not created again while it is missing, unless a sync has met it
present in between; and what a completed sync creates is on record. -/
theorem sync_leaves_the_users_files (sha256 : Bytes → String)
    (injective : Function.Injective sha256) (profile : Dict String Bytes) (refused : List String)
    (steps : List Step) (s : State)
    (ran : runSteps (step sha256) steps (fullReset sha256 profile refused) = some s) :
    (∀ now refused fate path file, s.project.get? path = some file →
      (path, file.content) ∉ s.delivered → (path, file.content) ∉ s.adopted →
      (sync sha256 now refused fate s).project.get? path = some file) ∧
    (∀ path, (s.manifest.get? path).isSome = true → ∀ later t,
      runSteps (step sha256) later s = some t →
      allSteps (step sha256) (missingAtSync path) later s = true → t.project.get? path = none →
      ∀ now refused fate, (sync sha256 now refused fate t).project.get? path = none) ∧
    (∀ now refused path, s.project.get? path = none →
      ((sync sha256 now refused .saved s).project.get? path).isSome = true →
      ((sync sha256 now refused .saved s).manifest.get? path).isSome = true) := by
  have grounded : Grounded sha256 s := runSteps_induct
    (fun _ _ _ grounded stepped => grounded_step grounded stepped)
    (grounded_fullReset profile refused) ran
  refine ⟨?_, ?_, ?_⟩
  · intro now refused fate path file present undelivered unadopted
    exact file_sync injective grounded present undelivered unadopted now refused fate
  · intro path recorded later t continued missingThen missing now refused fate
    have still : (t.manifest.get? path).isSome = true := runSteps_induct_of
      (fun _ _ _ recorded ok stepped => recorded_step recorded ok stepped) recorded missingThen
      continued
    exact (missing_sync missing still now refused fate).1
  · intro now refused path missing created
    exact recorded_sync missing now refused created

end Runs

/-- A hash that spells the content out. -/
private def spell (content : Bytes) : String :=
  String.ofList (content.map fun byte => Char.ofNat byte.toNat)

private theorem spell_injective : Function.Injective spell := by
  have bytes : Function.Injective fun byte : UInt8 => Char.ofNat byte.toNat := by
    intro first second same
    have code : ∀ byte : UInt8, (Char.ofNat byte.toNat).toNat = byte.toNat := by
      intro byte
      have small := byte.toNat_lt
      have valid : byte.toNat.isValidChar := .inl (by omega)
      simp only [Char.ofNat, valid, ↓reduceDIte]
      rfl
    have codes := congrArg Char.toNat same
    simp only [code] at codes
    exact UInt8.toNat_inj.mp codes
  intro first second same
  exact List.map_injective_iff.mpr bytes (String.ofList_injective same)

private def one (path : String) (content : Bytes) : Dict String Bytes := Dict.empty.set path content

private def upgraded : List Step :=
  [.upgrade (one "b" [2]), .write "a" [7], .sync 1 [] (.crashed 1), .sync 2 [] .saved, .remove "b"]

private theorem ran_upgraded :
    (runSteps (step spell) upgraded (fullReset spell (one "a" [1]) [])).isSome = true := by
  decide

theorem sync_leaves_the_users_files_upgraded :
    ∃ s, runSteps (step spell) upgraded (fullReset spell (one "a" [1]) []) = some s ∧
      (sync spell 3 [] .saved s).project.get? "a" = some ⟨[7], true⟩ ∧
      (sync spell 3 [] .saved s).project.get? "b" = none := by
  have kept := sync_leaves_the_users_files spell spell_injective (one "a" [1]) [] upgraded _
    (Option.some_get ran_upgraded).symm
  refine ⟨_, (Option.some_get ran_upgraded).symm, ?_, ?_⟩
  · exact kept.1 3 [] .saved "a" ⟨[7], true⟩ (by decide) (by decide)
      (by decide)
  · exact kept.2.1 "b" (by decide) [] _ rfl rfl (by decide) 3 [] .saved

/-- The user's file is equal to a file that the profile brings later, and then changes. -/
private def takenOver : List Step :=
  [.write "b" [2], .upgrade (one "b" [2]), .sync 1 [] .saved, .upgrade (one "b" [3])]

/-- The user deletes a file, brings it back for one sync and deletes it for good. -/
private def deletedTwice : List Step :=
  [.remove "a", .sync 1 [] .saved, .write "a" [7], .sync 2 [] .saved, .remove "a"]

private theorem ran_takenOver :
    (runSteps (step spell) takenOver (fullReset spell (one "a" [1]) [])).isSome = true := by
  decide

private theorem ran_deletedTwice :
    (runSteps (step spell) deletedTwice (fullReset spell (one "a" [1]) [])).isSome = true := by
  decide

/-- A file that the user wrote and no sync delivered is overwritten, and a path that the user
deleted under a sync's eyes is created again although the user left nothing there. -/
theorem takes_over_and_creates_again :
    (∃ s, runSteps (step spell) takenOver (fullReset spell (one "a" [1]) []) = some s ∧
      s.project.get? "b" = some ⟨[2], true⟩ ∧ ("b", [2]) ∉ s.delivered ∧
      (sync spell 2 [] .saved s).project.get? "b" = some ⟨[3], false⟩) ∧
    ∃ s, runSteps (step spell) deletedTwice (fullReset spell (one "a" [1]) []) = some s ∧
      s.project.get? "a" = none ∧
      (sync spell 3 [] .saved s).project.get? "a" = some ⟨[1], false⟩ := by
  constructor
  · exact ⟨_, (Option.some_get ran_takenOver).symm, by decide, by decide,
      by decide⟩
  · exact ⟨_, (Option.some_get ran_deletedTwice).symm, by decide, by decide⟩

end ArcReel.Profile
