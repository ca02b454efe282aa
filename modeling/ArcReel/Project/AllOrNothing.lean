import ArcReel.Project.Update
import Mathlib.Data.List.DropRight

/-! An update of several files is done as a whole or not at all. -/

namespace ArcReel.Project
open Review

variable {β δ : Type} {token : List Char}

section Names

theorem toDigits_injective : Function.Injective (Nat.toDigits 10) := by
  intro i j same
  have read := congrArg (fun digits => Nat.ofDigitChars 10 digits 0) same
  simp only [Nat.ofDigitChars_toDigits (show 1 < 10 by decide) (Nat.le_refl 10)] at read
  exact read

theorem index_of_digits {before before' : List Char} {i j : Nat}
    (same : before ++ '-' :: Nat.toDigits 10 i = before' ++ '-' :: Nat.toDigits 10 j) : i = j := by
  have digits (before : List Char) (i : Nat) :
      (before ++ '-' :: Nat.toDigits 10 i).rtakeWhile Char.isDigit = Nat.toDigits 10 i := by
    have each : ∀ c ∈ (Nat.toDigits 10 i).reverse, c.isDigit = true := fun c member =>
      Nat.isDigit_of_mem_toDigits (by decide) (Nat.le_refl 10) (List.mem_reverse.mp member)
    rw [List.rtakeWhile, List.reverse_append, List.reverse_cons, List.append_assoc,
      List.takeWhile_append_of_pos each, List.singleton_append, List.takeWhile_cons_of_neg (by decide),
      List.append_nil, List.reverse_reverse]
  apply toDigits_injective
  rw [← digits before i, same, digits]

/-- The name beside a path tells the index. -/
theorem index_of_beside {suffix : List Char} {i j : Nat} {path other : Path}
    (same : path.beside token suffix i = other.beside token suffix j) : i = j := by
  have names := (List.cons.inj (congrArg Path.name same)).2
  have regroup (name : List Char) (index : Nat) :
      name ++ '.' :: (token ++ '-' :: (Nat.toDigits 10 index ++ suffix)) =
        (name ++ '.' :: token ++ '-' :: Nat.toDigits 10 index) ++ suffix := by
    simp only [List.append_assoc, List.cons_append]
  rw [regroup, regroup] at names
  exact index_of_digits (List.append_cancel_right names)

theorem temporary_ne_backup (i j : Nat) (path other : Path) :
    path.temporary token i ≠ other.backup token j := by
  intro same
  have last (name suffix : List Char) (index : Nat) (c : Char) :
      ('.' :: (name ++ '.' :: (token ++ '-' :: (Nat.toDigits 10 index ++ (suffix ++ [c]))))).getLast? =
        some c := by
    have regroup : '.' :: (name ++ '.' :: (token ++ '-' :: (Nat.toDigits 10 index ++ (suffix ++ [c])))) =
        ('.' :: (name ++ '.' :: token ++ '-' :: (Nat.toDigits 10 index ++ suffix))) ++ [c] := by
      simp only [List.append_assoc, List.cons_append]
    rw [regroup, List.getLast?_concat]
  have ends := congrArg (fun path => path.name.getLast?) same
  have first := last path.name ['.', 't', 'm'] i 'p'
  have second := last other.name ['.', 'b', 'a'] j 'k'
  exact absurd (first.symm.trans (ends.trans second)) (by decide)

/-- No temporary file and no backup of the call. -/
def Plain (token : List Char) (path : Path) : Prop :=
  ∀ i other, path ≠ Path.temporary token i other ∧ path ≠ Path.backup token i other

end Names

section Steps

variable {faults : Faults β} {disk : Disk β}

/-- Staged files from an index on, for destinations that are no files of the call's own. -/
def Indexed (token : List Char) : Nat → List (Path × Path) → Prop
  | _, [] => True
  | i, (temporary, destination) :: staged =>
      temporary = destination.temporary token i ∧ Plain token destination ∧ Indexed token (i + 1) staged

theorem Indexed.mem {i : Nat} {staged : List (Path × Path)} (indexed : Indexed token i staged)
    {file : Path × Path} (member : file ∈ staged) :
    ∃ k, i ≤ k ∧ file.1 = file.2.temporary token k ∧ Plain token file.2 := by
  induction staged generalizing i with
  | nil => cases member
  | cons head staged ih =>
    obtain ⟨own, plain, later⟩ := indexed
    cases List.mem_cons.mp member with
    | inl same => exact ⟨i, Nat.le_refl i, by rw [same]; exact own, by rw [same]; exact plain⟩
    | inr among =>
      obtain ⟨k, le, known⟩ := ih later among
      exact ⟨k, by omega, known⟩

/-- Staging touches nothing but its temporary files. -/
theorem stage_frame (i : Nat) (pending : List (Source β × Path)) (disk : Disk β) {path : Path}
    (apart : ∀ k, i ≤ k → ∀ other, path ≠ Path.temporary token k other) :
    (stage token faults i pending disk).2.2 path = disk path := by
  induction pending generalizing i disk with
  | nil => rfl
  | cons head pending ih =>
    obtain ⟨source, destination⟩ := head
    have own := apart i (Nat.le_refl i) destination
    rw [stage]
    cases source.read disk with
    | none => rfl
    | some content =>
      cases faults.stage i with
      | some left => exact Function.update_of_ne own _ _
      | none =>
        exact (ih (i + 1) _ fun k le => apart k (by omega)).trans (Function.update_of_ne own _ _)

theorem stage_indexed (i : Nat) (pending : List (Source β × Path)) (disk : Disk β)
    (plain : ∀ file ∈ pending, Plain token file.2) :
    Indexed token i (stage token faults i pending disk).1 ∧
      (stage token faults i pending disk).1.map Prod.snd <+: pending.map Prod.snd ∧
      ((stage token faults i pending disk).2.1 = false →
        (stage token faults i pending disk).1.map Prod.snd = pending.map Prod.snd) := by
  induction pending generalizing i disk with
  | nil => exact ⟨trivial, List.prefix_rfl, fun _ => rfl⟩
  | cons head pending ih =>
    obtain ⟨source, destination⟩ := head
    rw [stage]
    cases source.read disk with
    | none => exact ⟨trivial, List.nil_prefix, fun done => nomatch done⟩
    | some content =>
      cases faults.stage i with
      | some left => exact ⟨trivial, List.nil_prefix, fun done => nomatch done⟩
      | none =>
        have rest := ih (i + 1) (Function.update disk (destination.temporary token i) (some content))
          fun file member => plain file (List.mem_cons_of_mem _ member)
        exact ⟨⟨rfl, plain _ List.mem_cons_self, rest.1⟩, (List.prefix_cons_inj _).mpr rest.2.1,
          fun done => congrArg (destination :: ·) (rest.2.2 done)⟩

/-- A staging that does not raise holds every source in a temporary file. -/
theorem stage_done (i : Nat) (pending : List (Source β × Path)) (disk before : Disk β)
    (same : ∀ path, Plain token path → disk path = before path)
    (plain : ∀ path, Source.copy path ∈ pending.map Prod.fst → Plain token path)
    (done : (stage token faults i pending disk).2.1 = false) {k : Nat} {file : Source β × Path}
    (found : pending[k]? = some file) :
    faults.stage (i + k) = none ∧ ∃ temporary content,
      (stage token faults i pending disk).1[k]? = some (temporary, file.2) ∧
        file.1.read before = some content ∧
        (stage token faults i pending disk).2.2 temporary = some content := by
  induction pending generalizing i disk k with
  | nil => cases found
  | cons head pending ih =>
    obtain ⟨source, destination⟩ := head
    have reads : source.read disk = source.read before := by
      cases source with
      | copy path => exact same path (plain path List.mem_cons_self)
      | write content => rfl
    rw [stage] at done ⊢
    cases read : source.read disk with
    | none =>
      rw [read] at done
      cases done
    | some content =>
      cases fate : faults.stage i with
      | some left =>
        rw [read, fate] at done
        cases done
      | none =>
        rw [read, fate] at done
        cases k with
        | zero =>
          rw [← Option.some.inj found]
          refine ⟨fate, destination.temporary token i, content, rfl, by rw [← reads, read], ?_⟩
          refine (stage_frame (i + 1) pending _ ?_).trans (Function.update_self _ _ _)
          intro k le other equal
          have := index_of_beside equal
          omega
        | succ k =>
          have later : ∀ path, Plain token path →
              Function.update disk (destination.temporary token i) (some content) path = before path :=
            fun path isPlain =>
              (Function.update_of_ne (isPlain i destination).1 _ _).trans (same path isPlain)
          have rest := ih (i + 1) _ later (fun path member => plain path (List.mem_cons_of_mem _ member)) done
            found
          rwa [Nat.add_right_comm] at rest

end Steps

section Moves

variable {disk : Disk β} {source destination path : Path}

theorem replace_eq_some {moved : Disk β} (done : replace disk source destination = some moved) :
    moved destination = disk source ∧
      ∀ path, path ≠ source → path ≠ destination → moved path = disk path := by
  unfold replace at done
  cases entry : disk source with
  | none =>
    rw [entry] at done
    cases done
  | some content =>
    rw [entry, Option.map_some, Option.some.injEq] at done
    rw [← done]
    refine ⟨Function.update_self _ _ _, ?_⟩
    intro path first second
    rw [Function.update_of_ne second, Function.update_of_ne first]

theorem replace_eq_none : replace disk source destination = none ↔ disk source = none := by
  unfold replace
  exact Option.map_eq_none_iff

/-- After a move aside the backup holds what there was, and nothing else has changed but the
destination. -/
theorem moveAside_spec (i : Nat) (destination : Path) (disk : Disk β) :
    ((moveAside token i destination disk).1 = none ∧ disk destination = none ∧
        (moveAside token i destination disk).2 = disk) ∨
      ((moveAside token i destination disk).1 = some (destination.backup token i) ∧
        (moveAside token i destination disk).2 (destination.backup token i) = disk destination ∧
        (disk destination).isSome = true ∧
        ∀ path, path ≠ destination → path ≠ destination.backup token i →
          (moveAside token i destination disk).2 path = disk path) := by
  unfold moveAside
  cases moved : replace disk destination (destination.backup token i) with
  | none => exact .inl ⟨rfl, replace_eq_none.mp moved, rfl⟩
  | some disk' =>
    have spec := replace_eq_some moved
    refine .inr ⟨rfl, spec.1, ?_, spec.2⟩
    cases there : disk destination with
    | none =>
      rw [replace_eq_none.mpr there] at moved
      cases moved
    | some content => rfl

theorem backup_of_moveAside {i : Nat} {backup : Path}
    (member : backup ∈ (moveAside token i destination disk).1) : backup = destination.backup token i := by
  cases moveAside_spec i destination disk with
  | inl missing =>
    rw [missing.1] at member
    cases member
  | inr moved =>
    rw [moved.1] at member
    exact (Option.some.inj member).symm

theorem restore_frame (final : Disk β) {backup : Option Path} (apart : path ≠ destination)
    (notBackup : ∀ b ∈ backup, path ≠ b) : restore final (destination, backup) path = final path := by
  have gone : unlink final destination path = final path := Function.update_of_ne apart _ _
  cases backup with
  | none => exact gone
  | some backup =>
    have result : restore final (destination, some backup) =
        (replace (unlink final destination) backup destination).getD (unlink final destination) := rfl
    rw [result]
    cases back : replace (unlink final destination) backup destination with
    | none => exact gone
    | some restored => exact ((replace_eq_some back).2 path (notBackup backup rfl) apart).trans gone

/-- A destination is restored from any disk that still has its backup. -/
theorem restore_self (i : Nat) (plain : Plain token destination) (before final : Disk β)
    (kept : final (destination.backup token i) =
      (moveAside token i destination before).2 (destination.backup token i)) :
    restore final (destination, (moveAside token i destination before).1) destination =
      before destination := by
  cases moveAside_spec i destination before with
  | inl missing =>
    rw [missing.1, missing.2.1]
    exact Function.update_self _ _ _
  | inr moved =>
    obtain ⟨aside, saved, present, -⟩ := moved
    have apart : destination.backup token i ≠ destination := (plain i destination).2.symm
    have there : unlink final destination (destination.backup token i) = before destination := by
      rw [unlink, Function.update_of_ne apart, kept, saved]
    have result : restore final (destination, some (destination.backup token i)) =
        (replace (unlink final destination) (destination.backup token i) destination).getD
          (unlink final destination) := rfl
    rw [aside, result]
    cases back : replace (unlink final destination) (destination.backup token i) destination with
    | none =>
      rw [replace_eq_none.mp back] at there
      rw [← there] at present
      cases present
    | some restored => exact (replace_eq_some back).1.trans there

end Moves

section Install

variable {faults : Faults β} {i : Nat} {staged : List (Path × Path)} {disk : Disk β}

/-- The first file is not begun, or moved aside only, or done before the rest. -/
theorem install_cons (i : Nat) (temporary destination : Path) (staged : List (Path × Path)) (disk : Disk β) :
    install token faults i ((temporary, destination) :: staged) disk = ([], true, disk) ∨
    install token faults i ((temporary, destination) :: staged) disk =
      ([(destination, (moveAside token i destination disk).1)], true, (moveAside token i destination disk).2) ∨
    ∃ installed, replace (moveAside token i destination disk).2 temporary destination = some installed ∧
      faults.install i = false ∧ ((disk destination).isSome = true → faults.backup i = false) ∧
      install token faults i ((temporary, destination) :: staged) disk =
        ((destination, (moveAside token i destination disk).1) ::
          (install token faults (i + 1) staged installed).1,
          (install token faults (i + 1) staged installed).2) := by
  rw [install]
  split
  next => exact .inl rfl
  next begun =>
    apply Or.inr
    dsimp only
    split
    next => exact .inl rfl
    next fate =>
      cases moved : replace (moveAside token i destination disk).2 temporary destination with
      | none => exact .inl rfl
      | some installed =>
        refine .inr ⟨installed, rfl, Bool.eq_false_iff.mpr fate, ?_, rfl⟩
        intro present
        exact Bool.eq_false_iff.mpr fun raises => begun ⟨present, raises⟩

theorem moveAside_frame (i : Nat) (destination : Path) (disk : Disk β) {path : Path}
    (apart : path ≠ destination) (notBackup : path ≠ destination.backup token i) :
    (moveAside token i destination disk).2 path = disk path := by
  cases moveAside_spec i destination disk with
  | inl missing => rw [missing.2.2]
  | inr moved => exact moved.2.2.2 path apart notBackup

/-- An install touches only its temporary files, its destinations, and backups from its index on. -/
theorem install_frame (i : Nat) (staged : List (Path × Path)) (disk : Disk β) {path : Path}
    (notTemporary : path ∉ staged.map Prod.fst) (notDestination : path ∉ staged.map Prod.snd)
    (notBackup : ∀ k, i ≤ k → ∀ other, path ≠ Path.backup token k other) :
    (install token faults i staged disk).2.2 path = disk path := by
  induction staged generalizing i disk with
  | nil => rfl
  | cons head staged ih =>
    obtain ⟨temporary, destination⟩ := head
    rw [List.map_cons, List.mem_cons, not_or] at notTemporary notDestination
    have aside : (moveAside token i destination disk).2 path = disk path :=
      moveAside_frame i destination disk notDestination.1 (notBackup i (Nat.le_refl i) destination)
    rcases @install_cons β token faults i temporary destination staged disk with
      stops | stops | ⟨installed, moved, -, -, goes⟩
    · rw [stops]
    · rw [stops]
      exact aside
    · have frame := (replace_eq_some moved).2 path notTemporary.1 notDestination.1
      rw [goes]
      exact (ih (i + 1) installed notTemporary.2 notDestination.2 fun k le => notBackup k (by omega)).trans
        (frame.trans aside)

theorem rollBack_cons (file : Path × Option Path) (installed : List (Path × Option Path)) (disk : Disk β) :
    rollBack (file :: installed) disk = restore (rollBack installed disk) file := by
  rw [rollBack, List.reverse_cons, List.foldl_append]
  rfl

/-- The rollback of an install touches only the destinations and the backups that it has made. -/
theorem rollBack_frame (i : Nat) (staged : List (Path × Path)) (disk final : Disk β) {path : Path}
    (outside : path ∉ (install token faults i staged disk).1.map Prod.fst)
    (notBackup : ∀ k, i ≤ k → ∀ other, path ≠ Path.backup token k other) :
    rollBack (install token faults i staged disk).1 final path = final path := by
  induction staged generalizing i disk with
  | nil => rfl
  | cons head staged ih =>
    obtain ⟨temporary, destination⟩ := head
    have own : ∀ b ∈ (moveAside token i destination disk).1, path ≠ b := by
      intro b member
      rw [backup_of_moveAside member]
      exact notBackup i (Nat.le_refl i) destination
    rcases @install_cons β token faults i temporary destination staged disk with
      stops | stops | ⟨installed, -, -, -, goes⟩
    · rw [stops]
      rfl
    · rw [stops] at outside ⊢
      exact restore_frame final (fun same => outside (by rw [same]; exact List.mem_cons_self)) own
    · rw [goes] at outside ⊢
      rw [List.map_cons, List.mem_cons, not_or] at outside
      rw [rollBack_cons, restore_frame _ outside.1 own]
      exact ih (i + 1) installed outside.2 fun k le => notBackup k (by omega)

theorem install_within (i : Nat) (staged : List (Path × Path)) (disk : Disk β) :
    (install token faults i staged disk).1.map Prod.fst <+: staged.map Prod.snd ∧
      ((install token faults i staged disk).2.1 = false →
        (install token faults i staged disk).1.map Prod.fst = staged.map Prod.snd) := by
  induction staged generalizing i disk with
  | nil => exact ⟨List.prefix_rfl, fun _ => rfl⟩
  | cons head staged ih =>
    obtain ⟨temporary, destination⟩ := head
    rcases @install_cons β token faults i temporary destination staged disk with
      stops | stops | ⟨installed, -, -, -, goes⟩
    · rw [stops]
      exact ⟨List.nil_prefix, fun done => nomatch done⟩
    · rw [stops]
      exact ⟨⟨staged.map Prod.snd, rfl⟩, fun done => nomatch done⟩
    · rw [goes]
      have rest := ih (i + 1) installed
      exact ⟨(List.prefix_cons_inj _).mpr rest.1, fun done => congrArg (destination :: ·) (rest.2 done)⟩

/-- Whatever has become of the disk since, as long as the backups are there, the rollback gives every
destination that was touched its entry back, and the others were not touched. -/
theorem rollBack_install (i : Nat) (staged : List (Path × Path)) (disk final : Disk β)
    (indexed : Indexed token i staged) (distinct : (staged.map Prod.snd).Nodup)
    (kept : ∀ k path, final (Path.backup token k path) =
      (install token faults i staged disk).2.2 (Path.backup token k path))
    {path : Path} (plain : Plain token path) :
    (path ∈ (install token faults i staged disk).1.map Prod.fst →
      rollBack (install token faults i staged disk).1 final path = disk path) ∧
    (path ∉ (install token faults i staged disk).1.map Prod.fst →
      (install token faults i staged disk).2.2 path = disk path) := by
  induction staged generalizing i disk with
  | nil => exact ⟨fun member => absurd member List.not_mem_nil, fun _ => rfl⟩
  | cons head staged ih =>
    obtain ⟨temporary, destination⟩ := head
    obtain ⟨isTemporary, isPlain, later⟩ := indexed
    rw [List.map_cons, List.nodup_cons] at distinct
    have notTemporary : path ≠ temporary := by
      rw [isTemporary]
      exact (plain i destination).1
    rcases @install_cons β token faults i temporary destination staged disk with
      stops | stops | ⟨installed, moved, -, -, goes⟩
    · rw [stops]
      exact ⟨fun member => absurd member List.not_mem_nil, fun _ => rfl⟩
    · rw [stops] at kept ⊢
      constructor
      · intro member
        rw [List.mem_singleton.mp member]
        exact restore_self i isPlain disk final (kept i destination)
      · intro outside
        exact moveAside_frame i destination disk (fun same => outside (List.mem_singleton.mpr same))
          (plain i destination).2
    · rw [goes] at kept ⊢
      have frame : ∀ other, other ≠ temporary → other ≠ destination →
          installed other = (moveAside token i destination disk).2 other := (replace_eq_some moved).2
      have rest := ih (i + 1) installed later distinct.2 kept
      -- the backup of the first file is none of the rest's
      have saved : rollBack (install token faults (i + 1) staged installed).1 final
          (destination.backup token i) =
            (moveAside token i destination disk).2 (destination.backup token i) := by
        have other : ∀ k, i + 1 ≤ k → ∀ q, destination.backup token i ≠ Path.backup token k q := by
          intro k le q same
          have := index_of_beside same
          omega
        have outside : destination.backup token i ∉ staged.map Prod.snd := by
          intro member
          obtain ⟨file, inside, same⟩ := List.mem_map.mp member
          obtain ⟨k, -, -, plainFile⟩ := later.mem inside
          exact (plainFile i destination).2 same
        have unstaged : destination.backup token i ∉ staged.map Prod.fst := by
          intro member
          obtain ⟨file, inside, same⟩ := List.mem_map.mp member
          obtain ⟨k, -, isTemp, -⟩ := later.mem inside
          exact temporary_ne_backup k i _ _ (isTemp.symm.trans same)
        rw [rollBack_frame (i + 1) staged installed final
          (fun member => outside ((install_within (i + 1) staged installed).1.subset member)) other,
          kept i destination]
        exact (install_frame (i + 1) staged installed unstaged outside other).trans
          (frame _ (by rw [isTemporary]; exact (temporary_ne_backup i i _ _).symm) (isPlain i destination).2.symm)
      have same (apart : path ≠ destination) : installed path = disk path :=
        (frame path notTemporary apart).trans (moveAside_frame i destination disk apart (plain i destination).2)
      rw [List.map_cons, rollBack_cons, List.mem_cons]
      constructor
      · intro member
        by_cases first : path = destination
        · rw [first]
          exact restore_self i isPlain disk _ saved
        · have among := member.resolve_left first
          have own : ∀ b ∈ (moveAside token i destination disk).1, path ≠ b := by
            intro b known
            rw [backup_of_moveAside known]
            exact (plain i destination).2
          rw [restore_frame _ first own, rest.1 among]
          exact same first
      · intro outside
        rw [not_or] at outside
        exact (rest.2 outside.2).trans (same outside.1)

/-- An install that does not raise has moved every temporary file to its destination, and no step of
it has failed. -/
theorem install_done (i : Nat) (staged : List (Path × Path)) (disk : Disk β)
    (indexed : Indexed token i staged) (distinct : (staged.map Prod.snd).Nodup)
    (done : (install token faults i staged disk).2.1 = false) :
    (∀ file ∈ staged, (install token faults i staged disk).2.2 file.2 = disk file.1) ∧
      ∀ k file, staged[k]? = some file → faults.install (i + k) = false ∧
        ((disk file.2).isSome = true → faults.backup (i + k) = false) := by
  induction staged generalizing i disk with
  | nil => exact ⟨fun file member => absurd member List.not_mem_nil, fun k file found => nomatch found⟩
  | cons head staged ih =>
    obtain ⟨temporary, destination⟩ := head
    obtain ⟨isTemporary, isPlain, later⟩ := indexed
    rw [List.map_cons, List.nodup_cons] at distinct
    rcases @install_cons β token faults i temporary destination staged disk with
      stops | stops | ⟨installed, moved, fate, begun, goes⟩
    · rw [stops] at done
      cases done
    · rw [stops] at done
      cases done
    · rw [goes] at done ⊢
      have rest := ih (i + 1) installed later distinct.2 done
      have spec := replace_eq_some moved
      have temporaryKept : (moveAside token i destination disk).2 temporary = disk temporary :=
        moveAside_frame i destination disk (by rw [isTemporary]; exact (isPlain i destination).1.symm)
          (by rw [isTemporary]; exact temporary_ne_backup i i _ _)
      have same : ∀ path, path ≠ temporary → path ≠ destination → path ≠ destination.backup token i →
          installed path = disk path := fun path first second third =>
        (spec.2 path first second).trans (moveAside_frame i destination disk second third)
      constructor
      · intro file member
        cases List.mem_cons.mp member with
        | inl first =>
          rw [first]
          have unstaged : destination ∉ staged.map Prod.fst := by
            intro member
            obtain ⟨other, inside, equal⟩ := List.mem_map.mp member
            obtain ⟨k, -, isTemp, -⟩ := later.mem inside
            exact (isPlain k other.2).1 (equal.symm.trans isTemp)
          exact (install_frame (i + 1) staged installed unstaged distinct.1
            fun k _ q => (isPlain k q).2).trans (spec.1.trans temporaryKept)
        | inr among =>
          obtain ⟨k, le, isTemp, plainFile⟩ := later.mem among
          rw [rest.1 file among]
          apply same
          · intro equal
            rw [isTemp, isTemporary] at equal
            have := index_of_beside equal
            omega
          · rw [isTemp]
            exact (isPlain k file.2).1.symm
          · rw [isTemp]
            exact temporary_ne_backup k i _ _
      · intro k file found
        cases k with
        | zero =>
          rw [← Option.some.inj found]
          exact ⟨fate, begun⟩
        | succ k =>
          have step := rest.2 k file found
          rw [Nat.add_right_comm] at step
          refine ⟨step.1, ?_⟩
          intro present
          apply step.2
          have member : file ∈ staged := List.mem_of_getElem? found
          obtain ⟨k', -, -, plainFile⟩ := later.mem member
          rw [same file.2]
          · exact present
          · rw [isTemporary]
            exact (plainFile i destination).1
          · intro equal
            have among : file.2 ∈ staged.map Prod.snd := List.mem_map_of_mem member
            exact distinct.1 (by rw [← equal]; exact among)
          · exact (plainFile i destination).2

end Install

section Call

variable {u : Update β δ} {faults : Faults β} {disk : Disk β}

/-- Where the call is to put files; before its lists are known, where it was given to. -/
def Update.destinations (u : Update β δ) (disk : Disk β) : List Path :=
  match u.plan disk with
  | none => u.lists.destinations
  | some (_, lists) => lists.destinations

/-- No path of the call bears its random token. -/
structure Update.Fresh (u : Update β δ) (disk : Disk β) : Prop where
  projectFile : Plain u.token u.projectFile
  destinations : ∀ project lists, u.plan disk = some (project, lists) →
    ∀ file ∈ lists.pending, Plain u.token file.2
  sources : ∀ project lists, u.plan disk = some (project, lists) →
    ∀ path, .copy path ∈ lists.pending.map Prod.fst → Plain u.token path

/-- The callback leaves the backups of the call alone. -/
def Update.Discreet (u : Update β δ) : Prop :=
  ∀ onCommit ∈ u.onCommit, ∀ disk k path,
    (onCommit disk).2 (Path.backup u.token k path) = disk (Path.backup u.token k path)

theorem foldl_unlink (paths : List Path) (disk : Disk β) {path : Path} (outside : path ∉ paths) :
    paths.foldl unlink disk path = disk path := by
  induction paths generalizing disk with
  | nil => rfl
  | cons first paths ih =>
    rw [List.mem_cons, not_or] at outside
    rw [List.foldl_cons, ih _ outside.2]
    exact Function.update_of_ne outside.1 _ _

theorem commit_backup (fresh : Plain u.token u.projectFile) (discreet : u.Discreet) (project : δ)
    (disk : Disk β) (k : Nat) (path : Path) :
    (u.commit faults project disk).2 (Path.backup u.token k path) = disk (Path.backup u.token k path) := by
  unfold Update.commit
  cases u.dump project with
  | none => rfl
  | some content =>
    have written : Function.update disk u.projectFile (some content) (Path.backup u.token k path) =
        disk (Path.backup u.token k path) := Function.update_of_ne (fresh k path).2.symm _ _
    dsimp only
    split
    next => rfl
    next =>
      cases callback : u.onCommit with
      | none => exact written
      | some onCommit => exact (discreet onCommit callback _ k path).trans written

/-- Without a callback, what fails at the end has not written `project.json`. -/
theorem commit_none (without : u.onCommit = none) {project : δ}
    (fails : (u.commit faults project disk).1 = none) : (u.commit faults project disk).2 = disk := by
  unfold Update.commit at fails ⊢
  cases dumped : u.dump project with
  | none => rfl
  | some content =>
    rw [dumped] at fails
    dsimp only at fails ⊢
    split at fails
    next fault => rw [if_pos fault]
    next =>
      rw [without] at fails
      cases fails

theorem finish_none {attempt : Attempt β δ} (fails : attempt.project = none) :
    (Update.finish attempt).1 = none ∧ ∀ path, path ∉ attempt.staged.map Prod.fst →
      (Update.finish attempt).2 path = rollBack attempt.installed attempt.disk path := by
  unfold Update.finish
  rw [fails]
  exact ⟨rfl, fun path outside => foldl_unlink _ _ outside⟩

theorem finish_fst (attempt : Attempt β δ) : (Update.finish attempt).1 = attempt.project := by
  unfold Update.finish
  cases attempt.project <;> rfl

/-- The files that the staging makes ready to be installed. -/
theorem staged_ready (fresh : u.Fresh disk) {project : δ} {lists : Lists β}
    (planned : u.plan disk = some (project, lists)) (distinct : lists.destinations.Nodup) :
    Indexed u.token 0 (stage u.token faults 0 lists.pending disk).1 ∧
      ((stage u.token faults 0 lists.pending disk).1.map Prod.snd).Nodup ∧
      ((stage u.token faults 0 lists.pending disk).2.1 = false →
        (stage u.token faults 0 lists.pending disk).1.map Prod.snd = lists.destinations) ∧
      ∀ path, Plain u.token path → path ∉ (stage u.token faults 0 lists.pending disk).1.map Prod.fst := by
  have staged := @stage_indexed β u.token faults 0 lists.pending disk (fresh.destinations project lists planned)
  refine ⟨staged.1, staged.2.1.sublist.nodup distinct, staged.2.2, ?_⟩
  intro path plain member
  obtain ⟨file, inside, same⟩ := List.mem_map.mp member
  obtain ⟨k, -, isTemporary, -⟩ := staged.1.mem inside
  exact (plain k file.2).1 (same.symm.trans isTemporary)

/-- A `try` block that fails is undone on its destinations, and altogether if there is no callback. -/
theorem attempt_undone (fresh : u.Fresh disk) (discreet : u.Discreet)
    (fails : (u.attempt faults disk).project = none) {path : Path}
    (watched : path ∈ u.destinations disk ∨ path = u.projectFile ∧ u.onCommit = none) :
    (Update.finish (u.attempt faults disk)).2 path = disk path := by
  have finished := (finish_none fails).2 path
  unfold Update.attempt at fails finished ⊢
  cases planned : u.plan disk with
  | none =>
    rw [planned] at finished
    exact finished List.not_mem_nil
  | some plan =>
    obtain ⟨project, lists⟩ := plan
    have plain : Plain u.token path := by
      cases watched with
      | inl destination =>
        unfold Update.destinations at destination
        rw [planned] at destination
        obtain ⟨file, member, same⟩ := List.mem_map.mp destination
        rw [← same]
        exact fresh.destinations project lists planned file member
      | inr own =>
        rw [own.1]
        exact fresh.projectFile
    have listed : path ∈ lists.destinations ∨ u.onCommit = none := by
      cases watched with
      | inl destination =>
        unfold Update.destinations at destination
        rw [planned] at destination
        exact .inl destination
      | inr own => exact .inr own.2
    simp only [planned] at fails finished ⊢
    by_cases distinct : lists.destinations.Nodup
    · rw [if_pos distinct] at fails finished ⊢
      have ready := @staged_ready β δ u faults disk fresh project lists planned distinct
      have staging : (stage u.token faults 0 lists.pending disk).2.2 path = disk path :=
        stage_frame 0 lists.pending disk fun k _ other => (plain k other).1
      generalize stage u.token faults 0 lists.pending disk = files at *
      obtain ⟨staged, raised, found⟩ := files
      cases raised with
      | true => exact (finished (ready.2.2.2 path plain)).trans staging
      | false =>
        simp only [Bool.false_eq_true, if_false] at fails finished ⊢
        have within := @install_within β u.token faults 0 staged found
        have undone := fun final kept =>
          @rollBack_install β u.token faults 0 staged found final ready.1 ready.2.1 kept path plain
        have frame := fun final outside =>
          @rollBack_frame β u.token faults 0 staged found final path outside fun k _ other => (plain k other).2
        generalize install u.token faults 0 staged found = moved at *
        obtain ⟨installed, raised, after⟩ := moved
        -- when nothing else has happened to the disk
        have restored : rollBack installed after path = disk path := by
          by_cases touched : path ∈ installed.map Prod.fst
          · exact ((undone after fun k path => rfl).1 touched).trans staging
          · exact (frame after touched).trans (((undone after fun k path => rfl).2 touched).trans staging)
        cases raised with
        | true => exact (finished (ready.2.2.2 path plain)).trans restored
        | false =>
          simp only [Bool.false_eq_true, if_false] at fails finished ⊢
          rw [finished (ready.2.2.2 path plain)]
          cases listed with
          | inl listed =>
            have touched : path ∈ installed.map Prod.fst := by
              rw [within.2 rfl, ready.2.2.1 rfl]
              exact listed
            have kept := @commit_backup β δ u faults fresh.projectFile discreet project after
            exact ((undone _ kept).1 touched).trans staging
          | inr without =>
            rw [commit_none without fails]
            exact restored
    · rw [if_neg distinct] at finished ⊢
      exact finished List.not_mem_nil

theorem install_backups (i : Nat) (staged : List (Path × Path)) (disk : Disk β) {path : Path}
    (member : path ∈ (install u.token faults i staged disk).1.filterMap Prod.snd) :
    ∃ k other, path = Path.backup u.token k other := by
  induction staged generalizing i disk with
  | nil => cases member
  | cons head staged ih =>
    obtain ⟨temporary, destination⟩ := head
    have own : ∀ b ∈ (moveAside u.token i destination disk).1, ∃ k other, b = Path.backup u.token k other :=
      fun b known => ⟨i, destination, backup_of_moveAside known⟩
    rcases @install_cons β u.token faults i temporary destination staged disk with
      stops | stops | ⟨installed, -, -, -, goes⟩
    · rw [stops] at member
      cases member
    · rw [stops] at member
      obtain ⟨file, inside, known⟩ := List.mem_filterMap.mp member
      rw [List.mem_singleton.mp inside] at known
      exact own path known
    · rw [goes] at member
      obtain ⟨file, inside, known⟩ := List.mem_filterMap.mp member
      cases List.mem_cons.mp inside with
      | inl first =>
        rw [first] at known
        exact own path known
      | inr among => exact ih (i + 1) installed (List.mem_filterMap.mpr ⟨file, among, known⟩)

/-- The callback leaves a path as it is. -/
def Update.Leaves (u : Update β δ) (path : Path) : Prop :=
  ∀ onCommit ∈ u.onCommit, ∀ disk, (onCommit disk).2 path = disk path

/-- What has happened when the call returns: no step has raised, and the new contents are there. -/
structure Update.Completed (u : Update β δ) (faults : Faults β) (disk : Disk β) (lists : Lists β)
    (project : δ) (content : β) (final : Disk β) : Prop where
  planned : u.plan disk = some (project, lists)
  distinct : lists.destinations.Nodup
  dumped : u.dump project = some content
  staged : ∀ k < lists.pending.length, faults.stage k = none ∧ faults.install k = false
  aside : ∀ k file, lists.pending[k]? = some file → (disk file.2).isSome = true → faults.backup k = false
  wrote : faults.writeProject = false
  snapshot : u.onCommit.isSome = true → faults.snapshot = false
  committed : ∀ onCommit ∈ u.onCommit, ∃ written, (onCommit written).1 = false ∧
    written u.projectFile = some content ∧
    ∀ file ∈ lists.pending, file.2 ≠ u.projectFile → written file.2 = file.1.read disk
  files : ∀ file ∈ lists.pending, file.2 ≠ u.projectFile → u.Leaves file.2 →
    (file.1.read disk).isSome = true ∧ final file.2 = file.1.read disk
  project : u.Leaves u.projectFile → final u.projectFile = some content

/-- What the callback is given, and what it leaves. -/
theorem commit_some {project result : δ} {after : Disk β}
    (done : (u.commit faults project after).1 = some result) :
    result = project ∧ faults.writeProject = false ∧ ∃ content, u.dump project = some content ∧
      (∀ onCommit ∈ u.onCommit,
        (onCommit (Function.update after u.projectFile (some content))).1 = false) ∧
      ∀ path, u.Leaves path → (u.commit faults project after).2 path =
        Function.update after u.projectFile (some content) path := by
  unfold Update.commit at done ⊢
  cases dumped : u.dump project with
  | none =>
    rw [dumped] at done
    cases done
  | some content =>
    rw [dumped] at done
    dsimp only at done ⊢
    split at done
    next => cases done
    next fate =>
      rw [if_neg fate]
      cases callback : u.onCommit with
      | none =>
        rw [callback] at done
        exact ⟨(Option.some.inj done).symm, Bool.eq_false_iff.mpr fate, content, rfl,
          fun onCommit known => (nomatch known), fun path _ => rfl⟩
      | some onCommit =>
        rw [callback] at done
        dsimp only at done ⊢
        split at done
        next => cases done
        next quiet =>
          refine ⟨(Option.some.inj done).symm, Bool.eq_false_iff.mpr fate, content, rfl, ?_, ?_⟩
          · intro other known
            rw [← Option.some.inj known]
            exact Bool.eq_false_iff.mpr quiet
          · intro path leaves
            exact leaves onCommit callback _

theorem finish_some {attempt : Attempt β δ} {result : δ} (done : attempt.project = some result)
    {path : Path} (notTemporary : path ∉ attempt.staged.map Prod.fst)
    (notBackup : path ∉ attempt.installed.filterMap Prod.snd) :
    (Update.finish attempt).2 path = attempt.disk path := by
  unfold Update.finish
  rw [done]
  exact (foldl_unlink _ _ notBackup).trans (foldl_unlink _ _ notTemporary)

/-- A `try` block that succeeds has put every new content in its place. -/
theorem attempt_completed (fresh : u.Fresh disk) {result : δ}
    (done : (u.attempt faults disk).project = some result)
    (snapshot : u.onCommit.isSome = true → faults.snapshot = false) :
    ∃ lists content, u.Completed faults disk lists result content
      (Update.finish (u.attempt faults disk)).2 := by
  have finished := fun path => @finish_some β δ _ _ done path
  unfold Update.attempt at done finished ⊢
  cases planned : u.plan disk with
  | none =>
    rw [planned] at done
    cases done
  | some plan =>
    obtain ⟨project, lists⟩ := plan
    simp only [planned] at done finished ⊢
    by_cases distinct : lists.destinations.Nodup
    · rw [if_pos distinct] at done finished ⊢
      have ready := @staged_ready β δ u faults disk fresh project lists planned distinct
      have unstaged : ∀ path, Plain u.token path →
          (stage u.token faults 0 lists.pending disk).2.2 path = disk path :=
        fun path plain => stage_frame 0 lists.pending disk fun k _ other => (plain k other).1
      have contents := @stage_done β u.token faults 0 lists.pending disk disk (fun _ _ => rfl)
        (fresh.sources project lists planned)
      generalize stage u.token faults 0 lists.pending disk = files at *
      obtain ⟨staged, raised, found⟩ := files
      cases raised with
      | true => cases done
      | false =>
        simp only [Bool.false_eq_true, if_false] at done finished ⊢
        have moves := @install_done β u.token faults 0 staged found ready.1 ready.2.1
        have backups := fun path => @install_backups β δ u faults 0 staged found path
        generalize install u.token faults 0 staged found = moved at *
        obtain ⟨installed, raised, after⟩ := moved
        cases raised with
        | true => cases done
        | false =>
          simp only [Bool.false_eq_true, if_false] at done finished ⊢
          obtain ⟨same, wrote, content, dumped, quiet, leaves⟩ := commit_some done
          have plainFile := fresh.destinations project lists planned
          have left : ∀ path, Plain u.token path → u.Leaves path →
              (Update.finish ⟨(u.commit faults project after).1, staged, installed,
                (u.commit faults project after).2⟩).2 path =
                Function.update after u.projectFile (some content) path := by
            intro path plain leaves'
            refine (finished path (ready.2.2.2 path plain) ?_).trans (leaves path leaves')
            intro member
            obtain ⟨k, other, isBackup⟩ := backups path member
            exact (plain k other).2 isBackup
          have installed' : ∀ k file, lists.pending[k]? = some file →
              faults.stage k = none ∧ faults.install k = false ∧
                ((disk file.2).isSome = true → faults.backup k = false) ∧
                (file.1.read disk).isSome = true ∧ after file.2 = file.1.read disk := by
            intro k file listed
            obtain ⟨fate, temporary, text, ready', read, held⟩ := contents rfl listed
            rw [Nat.zero_add] at fate
            have step := (moves rfl).2 k _ ready'
            have same' : found file.2 = disk file.2 := unstaged _ (plainFile file (List.mem_of_getElem? listed))
            rw [Nat.zero_add, same'] at step
            refine ⟨fate, step.1, step.2, by rw [read]; rfl, ?_⟩
            rw [read, ← held]
            exact (moves rfl).1 _ (List.mem_of_getElem? ready')
          have written : ∀ file ∈ lists.pending, file.2 ≠ u.projectFile →
              Function.update after u.projectFile (some content) file.2 = file.1.read disk := by
            intro file member other
            obtain ⟨k, listed⟩ := List.getElem?_of_mem member
            exact (Function.update_of_ne other _ _).trans (installed' k file listed).2.2.2.2
          refine ⟨lists, content, ?_⟩
          rw [same]
          exact {
            planned := planned
            distinct := distinct
            dumped := dumped
            staged := fun k lt =>
              have step := installed' k _ (List.getElem?_eq_getElem lt)
              ⟨step.1, step.2.1⟩
            aside := fun k file listed => (installed' k file listed).2.2.1
            wrote := wrote
            snapshot := snapshot
            committed := fun onCommit known =>
              ⟨_, quiet onCommit known, Function.update_self _ _ _, written⟩
            files := fun file member other leaves' => by
              obtain ⟨k, listed⟩ := List.getElem?_of_mem member
              exact ⟨(installed' k file listed).2.2.2.1,
                (left _ (plainFile file member) leaves').trans (written file member other)⟩
            project := fun leaves' =>
              (left _ fresh.projectFile leaves').trans (Function.update_self _ _ _) }
    · rw [if_neg distinct] at done
      cases done

theorem transaction_raised (path : Path) (before after : Disk β) :
    (formalWriteTransaction [path] before after true fun _ => true).files =
      Function.update after path (before path) := by
  simp [formalWriteTransaction, rollback, FormalWrite.files]

/-- A call that raises leaves every destination and `project.json` as they were; one that returns has
had no step fail, and has left the new contents in all of them. -/
theorem update_all_or_nothing (u : Update β δ) (faults : Faults β) (disk : Disk β) (fresh : u.Fresh disk)
    (discreet : u.Discreet) :
    ((u.run faults disk).1 = none → ∀ path, path = u.projectFile ∨ path ∈ u.destinations disk →
      (u.run faults disk).2 path = disk path) ∧
    ∀ project, (u.run faults disk).1 = some project →
      ∃ lists content, u.Completed faults disk lists project content (u.run faults disk).2 := by
  have first := finish_fst (u.attempt faults disk)
  unfold Update.run
  cases callback : u.onCommit with
  | none =>
    have snapshot : u.onCommit.isSome = true → faults.snapshot = false := by
      intro some_
      rw [callback] at some_
      cases some_
    constructor
    · intro fails path watched
      refine attempt_undone fresh discreet (first.symm.trans fails) ?_
      cases watched with
      | inl own => exact .inr ⟨own, callback⟩
      | inr listed => exact .inl listed
    · intro project done
      exact attempt_completed fresh (first.symm.trans done) snapshot
  | some onCommit =>
    dsimp only
    split
    next => exact ⟨fun _ _ _ => rfl, fun project done => nomatch done⟩
    next quiet =>
      constructor
      · intro fails path watched
        dsimp only at fails ⊢
        rw [fails, Option.isNone_none, transaction_raised]
        by_cases own : path = u.projectFile
        · rw [own, Function.update_self]
        · rw [Function.update_of_ne own]
          exact attempt_undone fresh discreet (first.symm.trans fails) (.inl (watched.resolve_left own))
      · intro project done
        dsimp only at done ⊢
        rw [done]
        exact attempt_completed fresh (first.symm.trans done) fun _ => Bool.eq_false_iff.mpr quiet

end Call

section Demo

/-- The names of the call's own files start with a dot. -/
theorem plain_of_head {path : Path} (shown : path.name.head? ≠ some '.') : Plain token path := by
  intro i other
  constructor
  all_goals
    intro same
    rw [same] at shown
    exact shown rfl

private def file (name : String) : Path := ⟨["film"], name.toList⟩

/-- A copy over a file and a new file; the callback raises or not. -/
private def demo (raises : Bool) : Update String String where
  projectFile := file "project.json"
  token := ['f', '0']
  lists := ⟨[(file "upload.png", file "hero.png")], [("sound", file "voice.wav")]⟩
  load := some
  requiresUniqueAssetNamespace _ := some true
  ensureProjectAssetNamespace _ := some ()
  mutateFn _ lists := some ("renamed", lists)
  onSave := some
  dump := some
  onCommit := some fun disk => (raises, disk)

private def noFaults : Faults String := ⟨false, fun _ => none, fun _ => false, fun _ => false, false⟩

private def before : Disk String := fun path =>
  if path = file "project.json" then some "plan" else if path = file "upload.png" then some "new face"
  else if path = file "hero.png" then some "old face" else none

private theorem demo_fresh (raises : Bool) : (demo raises).Fresh before := by
  have shown : ∀ name ∈ ["project.json", "hero.png", "voice.wav", "upload.png"],
      Plain ['f', '0'] (file name) := by
    have heads : ["project.json", "hero.png", "voice.wav", "upload.png"].all
        (fun name => name.toList.head? ≠ some '.') = true := by decide
    intro name member
    exact plain_of_head (of_decide_eq_true (List.all_eq_true.mp heads name member))
  have planned : (demo raises).plan before = some ("renamed", (demo raises).lists) := by
    cases raises <;> rfl
  constructor
  · exact shown _ (by decide)
  · intro project lists known other member
    rw [planned] at known
    rw [← (Prod.mk.inj (Option.some.inj known)).2] at member
    cases member with
    | head => exact shown "hero.png" (by decide)
    | tail _ member =>
      rw [List.mem_singleton.mp member]
      exact shown "voice.wav" (by decide)
  · intro project lists known path member
    rw [planned] at known
    rw [← (Prod.mk.inj (Option.some.inj known)).2] at member
    cases member with
    | head => exact shown "upload.png" (by decide)
    | tail _ member => cases List.mem_singleton.mp member

private theorem demo_discreet (raises : Bool) : (demo raises).Discreet := by
  intro onCommit known disk k path
  rw [← Option.some.inj known]

theorem update_all_or_nothing_demo :
    ((demo true).run noFaults before).1 = none ∧
      (∀ path, path = (demo true).projectFile ∨ path ∈ (demo true).destinations before →
        ((demo true).run noFaults before).2 path = before path) ∧
      ((demo false).run noFaults before).1 = some "renamed" ∧
      ∃ lists content, (demo false).Completed noFaults before lists "renamed" content
        ((demo false).run noFaults before).2 := by
  have fails : ((demo true).run noFaults before).1 = none := by decide
  have done : ((demo false).run noFaults before).1 = some "renamed" := by decide
  exact ⟨fails,
    (update_all_or_nothing (demo true) noFaults before (demo_fresh true) (demo_discreet true)).1 fails, done,
    (update_all_or_nothing (demo false) noFaults before (demo_fresh false) (demo_discreet false)).2 _ done⟩

end Demo

end ArcReel.Project
