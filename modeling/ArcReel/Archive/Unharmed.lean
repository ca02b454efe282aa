import ArcReel.Archive.Install

/-! When an import leaves the project that was there as it was. -/

namespace ArcReel.Archive
open Lib

variable {β : Type}

section Statement

variable (profile : ProfileSync β) (faults : Faults β) (race : Race β) (projects : Projects β)

/-- The project under the target name: the one that is there when the install begins, or else the
one that is created before the move. -/
def previous (name : String) : Option (Dir β) :=
  ((create projects name race.beforeInstall).get? name).or race.beforeMove

/-- If the import raises, the project is as it was; without `overwrite` it always is. The other
directories of the projects root are never touched. -/
structure Unharmed (policy : ConflictPolicy) (name backup : String)
    (result : Except ImportError String × Projects β) : Prop where
  raised : ∀ e, result.1 = .error e → result.2.get? name = previous race projects name
  kept : policy ≠ .overwrite → ∀ dir, previous race projects name = some dir →
    result.2.get? name = some dir
  others : ∀ other, other ≠ name → other ≠ backup → result.2.get? other = projects.get? other

/-- The old project is not moved aside. -/
def asideFails (atInstall : Projects β) (old : Dir β) (name backup : String) : Prop :=
  renameDir atInstall old name backup = none ∨ faults.rename = .raises false

/-- With `overwrite`: an old project is moved aside (or what is found under the name of its backup
is the same), and without one no other request creates the project, or the install into it goes
through. Without `overwrite`: there is no project and no other request creates one. -/
def InstallsAlone (policy : ConflictPolicy) (name backup : String) : Prop :=
  let atInstall := create projects name race.beforeInstall
  match policy, atInstall.get? name with
  | .overwrite, some old => asideFails faults atInstall old name backup → atInstall.get? backup = some old
  | .overwrite, none => ∀ dir, race.beforeMove = some dir →
      dir.get? ["project"] = none ∧ faults.move = .done ∧ faults.sync = .done
  | _, found => found = none ∧ race.beforeMove = none

end Statement

section Directories

variable {projects : Projects β} {name other backup : String}

theorem backupName_ne (name token : String) : backupName name token ≠ name := by
  intro same
  have lengths := congrArg String.length same
  unfold backupName at lengths
  simp only [String.length_append] at lengths
  have positive : 0 < ".import-backup-".length := by decide
  omega

theorem get?_create_of_ne (apart : other ≠ name) (made : Option (Dir β)) :
    (create projects name made).get? other = projects.get? other := by
  cases made with
  | none => rfl
  | some dir =>
    rw [create]
    split
    · rfl
    · rw [Dict.get?_set, if_neg apart]

theorem get?_create (made : Option (Dir β)) :
    (create projects name made).get? name = (projects.get? name).or made := by
  cases made with
  | none => rw [create, Option.or_none]
  | some dir =>
    rw [create]
    split
    · next there =>
      obtain ⟨old, found⟩ := Option.isSome_iff_exists.mp there
      rw [found]
      rfl
    · next absent =>
      rw [Option.not_isSome_iff_eq_none.mp absent, Dict.get?_set, if_pos rfl]
      rfl

theorem get?_put (left : Option (Dir β)) : (put projects name left).get? name = left := by
  cases left with
  | none => rw [put, Dict.get?_erase, if_pos rfl]
  | some dir => rw [put, Dict.get?_set, if_pos rfl]

theorem get?_put_of_ne (apart : other ≠ name) (left : Option (Dir β)) :
    (put projects name left).get? other = projects.get? other := by
  cases left with
  | none => rw [put, Dict.get?_erase, if_neg apart]
  | some dir => rw [put, Dict.get?_set, if_neg apart]

/-- A rollback brings back what is under the name of the backup. -/
theorem get?_rollback : (rollback projects name (some backup)).get? name = projects.get? backup := by
  rw [rollback, Option.bind_some]
  cases found : projects.get? backup with
  | none =>
    dsimp only [Option.map_none]
    rw [Dict.get?_erase, if_pos rfl]
  | some dir =>
    dsimp only [Option.map_some]
    rw [Dict.get?_set, if_pos rfl]

theorem get?_rollback_none : (rollback projects name none).get? name = none := by
  rw [rollback, Option.bind_none]
  dsimp only
  rw [Dict.get?_erase, if_pos rfl]

theorem get?_rollback_of_ne (apart : other ≠ name) {saved : Option String}
    (aside : ∀ backup, saved = some backup → other ≠ backup) :
    (rollback projects name saved).get? other = projects.get? other := by
  rw [rollback]
  split
  · rw [Dict.get?_erase, if_neg apart]
  · next backup dir found =>
    obtain ⟨named, same, rest⟩ := Option.bind_eq_some_iff.mp found
    obtain ⟨dir', -, whole⟩ := Option.map_eq_some_iff.mp rest
    cases whole
    rw [Dict.get?_set, if_neg apart, Dict.get?_erase, if_neg (aside _ same), Dict.get?_erase,
      if_neg apart]

theorem renameDir_eq_some {dir : Dir β} {source target : String} {moved : Projects β}
    (renamed : renameDir projects dir source target = some moved) (apart : source ≠ target) :
    moved.get? target = some dir ∧ moved.get? source = none ∧
      ∀ other, other ≠ source → other ≠ target → moved.get? other = projects.get? other := by
  unfold renameDir at renamed
  split at renamed
  · cases renamed
    refine ⟨by rw [Dict.get?_set, if_pos rfl], ?_, fun other first second => ?_⟩
    · rw [Dict.get?_set, if_neg apart, Dict.get?_erase, if_pos rfl]
    · rw [Dict.get?_set, if_neg second, Dict.get?_erase, if_neg first]
  · cases renamed

/-- A directory into which a tree has been moved has an entry for it. -/
theorem project_nest (child dir : Dir β) : ((nest child dir).get? ["project"]).isSome = true := by
  have kept (entries : List (List String × Option β)) (dir : Dir β)
      (there : (dir.get? ["project"]).isSome = true) :
      ((entries.foldl (fun dir entry => dir.set ("project" :: entry.1) entry.2) dir).get?
        ["project"]).isSome = true := by
    induction entries generalizing dir with
    | nil => exact there
    | cons entry entries ih =>
      refine ih _ ?_
      rw [Dict.get?_set]
      split
      · rfl
      · exact there
  refine kept child.entries _ ?_
  rw [Dict.get?_set, if_pos rfl]
  rfl

end Directories

section Moves

variable {profile : ProfileSync β} {faults : Faults β} {staged : Dir β} {projects : Projects β}
variable {name other backup : String} {saved : Option String}

theorem moveAndSync_others (apart : other ≠ name)
    (aside : ∀ backup, saved = some backup → other ≠ backup) :
    (moveAndSync profile faults staged projects name saved).2.get? other = projects.get? other := by
  unfold moveAndSync
  split
  · rw [get?_rollback_of_ne apart aside, get?_put_of_ne apart]
  · split
    · rw [get?_rollback_of_ne apart aside, Dict.get?_set, if_neg apart]
    · cases saved with
      | none => exact get?_put_of_ne apart _
      | some backup =>
        dsimp only
        rw [Dict.get?_erase, if_neg (aside backup rfl), get?_put_of_ne apart]

/-- A move or a sync that fails brings the backup back. -/
theorem moveAndSync_restores (apart : backup ≠ name) {e : ImportError}
    (raised : (moveAndSync profile faults staged projects name (some backup)).1 = .error e) :
    (moveAndSync profile faults staged projects name (some backup)).2.get? name =
      projects.get? backup := by
  unfold moveAndSync at raised ⊢
  split
  · rw [get?_rollback, get?_put_of_ne apart]
  · next moved =>
    rw [moved] at raised
    dsimp only at raised ⊢
    split
    · rw [get?_rollback, Dict.get?_set, if_neg apart]
    · next synced =>
      rw [synced] at raised
      cases raised

/-- Without a backup a move or a sync that fails leaves nothing under the name. -/
theorem moveAndSync_clears {e : ImportError}
    (raised : (moveAndSync profile faults staged projects name none).1 = .error e) :
    (moveAndSync profile faults staged projects name none).2.get? name = none := by
  unfold moveAndSync at raised ⊢
  split
  · exact get?_rollback_none
  · next moved =>
    rw [moved] at raised
    dsimp only at raised ⊢
    split
    · exact get?_rollback_none
    · next synced =>
      rw [synced] at raised
      cases raised

theorem moveTree_returns {fate : CopyFate β} {dir : Dir β} {left : Option (Dir β)}
    (moved : moveTree fate staged (some dir) = (left, true)) :
    dir.get? ["project"] = none ∧ fate = .done ∧ left = some (nest staged dir) := by
  unfold moveTree at moved
  dsimp only at moved
  split at moved
  · cases moved
  · next free =>
    split at moved
    · cases moved
      exact ⟨Option.not_isSome_iff_eq_none.mp free, rfl, rfl⟩
    · cases moved
    · cases moved

/-- An install into a directory that is there returns exactly when the directory has no entry for
the tree and nothing fails. -/
theorem moveAndSync_returns_iff {dir : Dir β} (there : projects.get? name = some dir) :
    (∃ value, (moveAndSync profile faults staged projects name saved).1 = .ok value) ↔
      dir.get? ["project"] = none ∧ faults.move = .done ∧ faults.sync = .done := by
  constructor
  · rintro ⟨value, returned⟩
    unfold moveAndSync at returned
    rw [there] at returned
    split at returned
    · cases returned
    · next left moved =>
      obtain ⟨free, done, -⟩ := moveTree_returns moved
      split at returned
      · cases returned
      · next synced => exact ⟨free, done, synced⟩
  · rintro ⟨free, done, synced⟩
    unfold moveAndSync
    rw [there, done, synced]
    simp [moveTree, free]

/-- An install into a directory that is there never leaves it as it was. -/
theorem moveAndSync_changes {dir : Dir β} (there : projects.get? name = some dir) :
    (moveAndSync profile faults staged projects name none).2.get? name ≠ some dir := by
  cases reply : (moveAndSync profile faults staged projects name none).1 with
  | error e =>
    rw [moveAndSync_clears reply]
    exact fun never => nomatch never
  | ok value =>
    obtain ⟨free, done, synced⟩ := (moveAndSync_returns_iff there).mp ⟨value, reply⟩
    have installed : (moveAndSync profile faults staged projects name none).2.get? name =
        some (profile.sync (nest staged dir)) := by
      unfold moveAndSync
      rw [there, done, synced]
      simp [moveTree, free, get?_put]
    rw [installed]
    intro same
    have nested := project_nest staged dir
    rw [← profile.elsewhere _ ["project"] (by decide), Option.some.inj same, free] at nested
    cases nested

end Moves

section Installs

variable {profile : ProfileSync β} {faults : Faults β} {race : Race β} {staged : Dir β}
variable {projects : Projects β} {name token : String}

/-- An install that finds the name unused, or that does not overwrite, only moves and syncs. -/
theorem install_plain {found : Projects β} {made : Option (Dir β)} {overwrite : Bool}
    (plain : overwrite = false ∨ found.get? name = none) :
    installProjectDir profile faults made token staged found name overwrite =
      moveAndSync profile faults staged (create found name made) name none := by
  unfold installProjectDir
  cases plain with
  | inl never => rw [never]
  | inr absent =>
    rw [absent]
    cases overwrite <;> rfl

/-- An install over an old project restores it when it raises, if it could be moved aside. -/
theorem install_over {found : Projects β} {made : Option (Dir β)} {old : Dir β} {e : ImportError}
    (there : found.get? name = some old)
    (raised : (installProjectDir profile faults made token staged found name true).1 = .error e) :
    (installProjectDir profile faults made token staged found name true).2.get? name = some old ∨
      asideFails faults found old name (backupName name token) ∧
        (installProjectDir profile faults made token staged found name true).2.get? name =
          found.get? (backupName name token) := by
  have apart := backupName_ne name token
  unfold installProjectDir at raised ⊢
  simp only [there] at raised ⊢
  cases renamed : renameDir found old name (backupName name token) with
  | none =>
    refine Or.inr ⟨Or.inl renamed, ?_⟩
    exact get?_rollback
  | some moved =>
    obtain ⟨saved, -, -⟩ := renameDir_eq_some renamed apart.symm
    rw [renamed] at raised
    cases fate : faults.rename with
    | done =>
      rw [fate] at raised
      refine Or.inl ?_
      exact (moveAndSync_restores apart raised).trans ((get?_create_of_ne apart made).trans saved)
    | raises effect =>
      cases effect with
      | true => exact Or.inl (get?_rollback.trans saved)
      | false => exact Or.inr ⟨Or.inr fate, get?_rollback⟩

/-- If the old project could not be moved aside, the install raises and what is found under the name
of the backup takes its place. -/
theorem install_aside {found : Projects β} {made : Option (Dir β)} {old : Dir β}
    (there : found.get? name = some old)
    (aside : asideFails faults found old name (backupName name token)) :
    installProjectDir profile faults made token staged found name true =
      (.error .failed, rollback found name (some (backupName name token))) := by
  unfold installProjectDir
  simp only [there]
  cases aside with
  | inl taken => rw [taken]
  | inr fails =>
    rw [fails]
    cases renameDir found old name (backupName name token) with
    | none => rfl
    | some moved => rfl

theorem install_others {found : Projects β} {made : Option (Dir β)} {overwrite : Bool} {other : String}
    (apart : other ≠ name) (aside : other ≠ backupName name token) :
    (installProjectDir profile faults made token staged found name overwrite).2.get? other =
      found.get? other := by
  have saved : ∀ backup, some (backupName name token) = some backup → other ≠ backup := by
    intro backup same
    exact Option.some.inj same ▸ aside
  unfold installProjectDir
  split
  · next old there =>
    dsimp only
    split
    · next moved renamed fate =>
      obtain ⟨-, -, elsewhere⟩ := renameDir_eq_some renamed (backupName_ne name token).symm
      rw [moveAndSync_others apart saved, get?_create_of_ne apart, elsewhere other apart aside]
    · next moved renamed fate =>
      obtain ⟨-, -, elsewhere⟩ := renameDir_eq_some renamed (backupName_ne name token).symm
      rw [get?_rollback_of_ne apart saved, elsewhere other apart aside]
    · exact get?_rollback_of_ne apart saved
  · have unsaved : ∀ backup, (none : Option String) = some backup → other ≠ backup :=
      fun _ never => by cases never
    rw [moveAndSync_others apart unsaved, get?_create_of_ne apart]

/-- An import is unharmed if its install is. -/
theorem unharmed_iff {policy : ConflictPolicy} {backup : String}
    {result : Except ImportError Unit × Projects β}
    (others : ∀ other, other ≠ name → other ≠ backup → result.2.get? other = projects.get? other) :
    Unharmed race projects policy name backup (result.map (·.map fun _ => name) id) ↔
      (∀ e, result.1 = .error e → result.2.get? name = previous race projects name) ∧
        (policy ≠ .overwrite → ∀ dir, previous race projects name = some dir →
          result.2.get? name = some dir) := by
  obtain ⟨reply, left⟩ := result
  constructor
  · rintro ⟨raised, kept, -⟩
    refine ⟨fun e same => raised e ?_, kept⟩
    rw [Prod.map_fst, same]
    rfl
  · rintro ⟨raised, kept⟩
    refine ⟨fun e same => ?_, kept, others⟩
    cases reply with
    | error e' => exact raised e' rfl
    | ok value => cases same

/-- An install that only moves and syncs. -/
theorem plain_unharmed_iff {found : Projects β} {made : Option (Dir β)} {overwrite : Bool} :
    ((∀ e, (moveAndSync profile faults staged (create found name made) name none).1 = .error e →
        (moveAndSync profile faults staged (create found name made) name none).2.get? name =
          (found.get? name).or made) ∧
      (overwrite = false → ∀ dir, (found.get? name).or made = some dir →
        (moveAndSync profile faults staged (create found name made) name none).2.get? name =
          some dir)) ↔
      ∀ dir, (found.get? name).or made = some dir → overwrite = true ∧
        dir.get? ["project"] = none ∧ faults.move = .done ∧ faults.sync = .done := by
  have there := @get?_create _ found name made
  cases target : (found.get? name).or made with
  | none =>
    refine iff_of_true ⟨fun e raised => moveAndSync_clears raised, fun _ _ never => nomatch never⟩ ?_
    exact fun _ never => nomatch never
  | some dir =>
    rw [target] at there
    have changes : (moveAndSync profile faults staged (create found name made) name none).2.get?
        name ≠ some dir := moveAndSync_changes there
    constructor
    · rintro ⟨raised, kept⟩ other same
      cases same
      cases overwrite with
      | false => exact absurd (kept rfl dir rfl) changes
      | true =>
        refine ⟨rfl, ?_⟩
        cases reply : (moveAndSync profile faults staged (create found name made) name none).1 with
        | error e => exact absurd (raised e reply) changes
        | ok value => exact (moveAndSync_returns_iff there).mp ⟨value, reply⟩
    · intro alone
      obtain ⟨overwrites, free⟩ := alone dir rfl
      obtain ⟨value, returned⟩ : ∃ value, (moveAndSync profile faults staged (create found name made)
          name none).1 = .ok value := (moveAndSync_returns_iff there).mpr free
      refine ⟨fun e raised => ?_, fun never => ?_⟩
      · rw [returned] at raised
        cases raised
      · rw [overwrites] at never
        cases never

end Installs

section Conditions

variable {faults : Faults β} {race : Race β} {projects : Projects β} {policy : ConflictPolicy}
variable {name backup : String} {old : Dir β}

theorem installsAlone_plain (plain : policy ≠ .overwrite) :
    InstallsAlone faults race projects policy name backup ↔
      (create projects name race.beforeInstall).get? name = none ∧ race.beforeMove = none := by
  cases policy with
  | prompt => rfl
  | rename => rfl
  | overwrite => exact absurd rfl plain

theorem installsAlone_new
    (absent : (create projects name race.beforeInstall).get? name = none) :
    InstallsAlone faults race projects .overwrite name backup ↔
      ∀ dir, race.beforeMove = some dir →
        dir.get? ["project"] = none ∧ faults.move = .done ∧ faults.sync = .done := by
  unfold InstallsAlone
  dsimp only
  rw [absent]

theorem installsAlone_over
    (there : (create projects name race.beforeInstall).get? name = some old) :
    InstallsAlone faults race projects .overwrite name backup ↔
      (asideFails faults (create projects name race.beforeInstall) old name backup →
        (create projects name race.beforeInstall).get? backup = some old) := by
  unfold InstallsAlone
  dsimp only
  rw [there]

end Conditions

section Samples

private def keepProfile : ProfileSync Nat := ⟨id, fun _ _ _ => rfl⟩

private def stagedTree : Dir Nat := Dict.empty.set ["project.json"] (some 1)

private def otherTree : Dir Nat := Dict.empty.set ["project.json"] (some 2)

private def oldProjects : Projects Nat := Dict.empty.set "demo" otherTree

end Samples

end ArcReel.Archive
