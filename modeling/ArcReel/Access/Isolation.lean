import ArcReel.Access.Reading

/-! A search reaches every file below the directory it is allowed in. The check looks at the
directory alone. -/

namespace ArcReel.Access
open Lib

namespace AgentAccessPolicy

variable {policy : AgentAccessPolicy} {tree : FileTree} {cwd dir file : Path}

/-- The session may read whatever a search in `dir` reaches. -/
def ReadsBelow (policy : AgentAccessPolicy) (tree : FileTree) (cwd dir : Path) : Prop :=
  ∀ file ∈ tree.files, dir <+: file →
    policy.checkPathAccess tree file.text .read cwd = none

/-- No occupied protected place is at or below `dir`. -/
structure Clear (policy : AgentAccessPolicy) (tree : FileTree) (cwd dir : Path) : Prop where
  files : ∀ place ∈ policy.sensitiveFiles, dir <+: place → place ∉ tree.files
  prefixes : ∀ place ∈ policy.sensitivePrefixes, dir <+: place →
    ∀ file ∈ tree.files, ¬place <+: file
  globs : ∀ glob ∈ policy.sensitiveGlobs, dir <+: glob.1 →
    ∀ name, glob.2 <+: name → glob.1 ++ [name] ∉ tree.files
  projects : dir <+: policy.projectsRoot → ∀ other, other ≠ Path.name cwd →
    ∀ below, below ≠ [] → policy.projectsRoot ++ [other] ++ below ∈ tree.files →
      cwd <+: policy.projectsRoot ++ [other] ++ below ∨
        policy.isSdkOutput cwd (policy.projectsRoot ++ [other] ++ below) = true

section Sensitive

theorem matchesGlob_iff {resolved : Path} {glob : Path × List Char} :
    matchesGlob resolved glob = true ↔ ∃ name, glob.2 <+: name ∧ resolved = glob.1 ++ [name] := by
  rw [matchesGlob]
  constructor
  · intro matched
    split at matched
    · next name found =>
      exact ⟨name, List.isPrefixOf_iff_prefix.mp matched, Path.relativeTo_eq_some.mp found⟩
    · cases matched
  · rintro ⟨name, stem, rfl⟩
    rw [Path.relativeTo_append]
    exact List.isPrefixOf_iff_prefix.mpr stem

theorem isSensitivePath_iff {resolved : Path} :
    policy.isSensitivePath resolved = true ↔
      resolved ∈ policy.sensitiveFiles ∨
        (∃ place ∈ policy.sensitivePrefixes, place <+: resolved) ∨
        ∃ glob ∈ policy.sensitiveGlobs, ∃ name, glob.2 <+: name ∧ resolved = glob.1 ++ [name] := by
  simp only [isSensitivePath, Bool.or_eq_true, List.any_eq_true, beq_iff_eq,
    List.isPrefixOf_iff_prefix, matchesGlob_iff, exists_eq_right', or_assoc]

/-- A sensitive file below a directory that is not sensitive lies in an occupied place. -/
theorem Clear.plain (clear : policy.Clear tree cwd dir) (stored : file ∈ tree.files)
    (below : dir <+: file) (open' : policy.isSensitivePath dir = false) :
    policy.isSensitivePath file = false := by
  rw [← Bool.not_eq_true] at open' ⊢
  rw [isSensitivePath_iff] at open' ⊢
  rintro (exact' | ⟨place, listed, inside⟩ | ⟨glob, listed, name, stem, whole⟩)
  · exact clear.files file exact' below stored
  · cases List.prefix_or_prefix_of_prefix below inside with
    | inl above => exact clear.prefixes place listed above file stored inside
    | inr within => exact open' (Or.inr (Or.inl ⟨place, listed, within⟩))
  · rw [whole] at below stored
    cases List.prefix_concat_iff.mp below with
    | inl same => exact open' (Or.inr (Or.inr ⟨glob, listed, name, stem, same⟩))
    | inr above => exact clear.globs glob listed above name stem stored

end Sensitive

section Reading

theorem isSdkOutput_below (below : dir <+: file) (output : policy.isSdkOutput cwd dir = true) :
    policy.isSdkOutput cwd file = true := by
  simp only [isSdkOutput, Bool.or_eq_true, Bool.and_eq_true, List.isPrefixOf_iff_prefix,
    List.contains_iff_mem, List.any_eq_true] at output ⊢
  cases output with
  | inl results => exact Or.inl ⟨results.1.trans below, below.subset results.2⟩
  | inr tasks =>
    obtain ⟨⟨front, listed, starts⟩, inside⟩ := tasks
    exact Or.inr ⟨⟨front, listed, starts.trans (Path.text_prefix below)⟩, below.subset inside⟩

/-- What the reading side asks, case by case. -/
theorem checkReadAccess_eq_none_iff {resolved : Path} :
    policy.checkReadAccess tree resolved cwd = none ↔
      cwd <+: resolved ∨ policy.isSdkOutput cwd resolved = true ∨
        (policy.projectsRoot <+: resolved ∧ ∀ first below,
          resolved = policy.projectsRoot ++ first :: below →
            policy.projectsRoot ++ [first] ∈ tree.dirs → first = Path.name cwd) ∨
        (¬policy.projectsRoot <+: resolved ∧ policy.projectRoot <+: resolved) := by
  rw [checkReadAccess]
  by_cases own : cwd <+: resolved
  · simp [own]
  by_cases output : policy.isSdkOutput cwd resolved = true
  · simp [output]
  rw [if_neg (by simpa using own), if_neg output]
  cases rel : Path.relativeTo resolved policy.projectsRoot with
  | none =>
    have outside := Path.relativeTo_eq_none.mp rel
    simp [own, output, outside]
  | some below =>
    have whole := Path.relativeTo_eq_some.mp rel
    have inside : policy.projectsRoot <+: resolved := ⟨below, whole.symm⟩
    cases below with
    | nil => simp [whole]
    | cons first below =>
      simp only [own, output, inside, not_true, false_and, or_false, false_or, true_and, Bool.false_eq_true]
      rw [whole]
      simp only [List.append_cancel_left_eq, List.cons.injEq, and_imp]
      constructor
      · intro allowed first' below' same _ isDir
        subst same
        by_contra differs
        simp [isDir, differs] at allowed
      · intro own'
        rw [if_neg]
        rintro ⟨isDir, differs⟩
        exact differs (own' first below rfl rfl isDir)

theorem checkPathAccess_eq_none_iff {text : List Char} {tool : ReadTool} :
    policy.checkPathAccess tree text tool cwd = none ↔ ∃ resolved, resolve cwd text = some resolved ∧
      policy.isSensitivePath resolved = false ∧
        policy.checkReadAccess tree resolved cwd = none := by
  rw [checkPathAccess]
  cases resolve cwd text with
  | none => simp
  | some resolved => cases sensitive : policy.isSensitivePath resolved <;> simp [sensitive]

theorem checkPathAccess_file (stored : file ∈ tree.files) (tool : ReadTool) :
    policy.checkPathAccess tree file.text tool cwd = none ↔
      policy.isSensitivePath file = false ∧ policy.checkReadAccess tree file cwd = none := by
  rw [checkPathAccess_eq_none_iff,
    resolve_text (tree.names file (List.mem_append_left _ stored)) cwd]
  simp

/-- The reading side lets a file pass that it cannot tell from its allowed directory. -/
theorem Clear.readable (clear : policy.Clear tree cwd dir) (stored : file ∈ tree.files)
    (below : dir <+: file) (allowed : policy.checkReadAccess tree dir cwd = none) :
    policy.checkReadAccess tree file cwd = none := by
  have within : dir <+: policy.projectsRoot → policy.projectsRoot <+: file →
      policy.checkReadAccess tree file cwd = none := by
    intro above inside
    rw [checkReadAccess_eq_none_iff]
    by_cases exempt : cwd <+: file ∨ policy.isSdkOutput cwd file = true
    · exact exempt.elim Or.inl fun output => Or.inr (Or.inl output)
    refine Or.inr (Or.inr (Or.inl ⟨inside, ?_⟩))
    intro first more whole isDir
    by_contra differs
    cases more with
    | nil => exact tree.apart file stored (whole ▸ isDir)
    | cons next more =>
      rw [List.append_cons] at whole
      refine exempt ?_
      rw [whole]
      exact clear.projects above first differs (next :: more) (List.cons_ne_nil _ _)
        (whole ▸ stored)
  rw [checkReadAccess_eq_none_iff] at allowed
  rcases allowed with own | output | ⟨inside, first_own⟩ | ⟨outside, reference⟩
  · exact checkReadAccess_eq_none_iff.mpr (Or.inl (own.trans below))
  · exact checkReadAccess_eq_none_iff.mpr (Or.inr (Or.inl (isSdkOutput_below below output)))
  · obtain ⟨rest, split⟩ := inside
    cases rest with
    | nil =>
      rw [List.append_nil] at split
      exact within (split ▸ List.prefix_refl _) (split ▸ below)
    | cons first rest =>
      refine checkReadAccess_eq_none_iff.mpr (Or.inr (Or.inr (Or.inl ⟨?_, ?_⟩)))
      · exact List.IsPrefix.trans ⟨first :: rest, split⟩ below
      · intro first' more whole isDir
        obtain ⟨tail, joined⟩ := below
        rw [← split, whole, List.append_assoc, List.append_cancel_left_eq, List.cons_append,
          List.cons.injEq] at joined
        rw [← joined.1] at isDir ⊢
        exact first_own first rest split.symm isDir
  · by_cases inside : policy.projectsRoot <+: file
    · cases List.prefix_or_prefix_of_prefix below inside with
      | inl above => exact within above inside
      | inr under => exact absurd under outside
    · exact checkReadAccess_eq_none_iff.mpr
        (Or.inr (Or.inr (Or.inr ⟨inside, reference.trans below⟩)))

end Reading

section Isolation

/-- What a readable directory says about the places below it. -/
theorem ReadsBelow.clear (reads : policy.ReadsBelow tree cwd dir) : policy.Clear tree cwd dir := by
  have read : ∀ file ∈ tree.files, dir <+: file →
      policy.isSensitivePath file = false ∧ policy.checkReadAccess tree file cwd = none :=
    fun file stored below => (checkPathAccess_file stored .read).mp (reads file stored below)
  have plain : ∀ file ∈ tree.files, dir <+: file → ¬policy.isSensitivePath file = true := by
    intro file stored below
    rw [(read file stored below).1]
    exact Bool.false_ne_true
  constructor
  · intro place listed below stored
    exact plain place stored below (isSensitivePath_iff.mpr (Or.inl listed))
  · intro place listed below file stored inside
    exact plain file stored (below.trans inside)
      (isSensitivePath_iff.mpr (Or.inr (Or.inl ⟨place, listed, inside⟩)))
  · intro glob listed below name stem stored
    exact plain _ stored (below.trans (List.prefix_append _ _))
      (isSensitivePath_iff.mpr (Or.inr (Or.inr ⟨glob, listed, name, stem, rfl⟩)))
  · intro above other differs below filled stored
    have parent : policy.projectsRoot ++ [other] <+: policy.projectsRoot ++ [other] ++ below :=
      List.prefix_append _ _
    have isDir : policy.projectsRoot ++ [other] ∈ tree.dirs :=
      tree.above _ (List.mem_append_left _ stored) _ parent (by simpa using filled)
    have reached := above.trans ((List.prefix_append _ [other]).trans parent)
    rcases checkReadAccess_eq_none_iff.mp (read _ stored reached).2 with
      own | output | ⟨_, first_own⟩ | ⟨outside, _⟩
    · exact Or.inl own
    · exact Or.inr output
    · exact absurd (first_own other below (by simp) isDir) differs
    · exact absurd ((List.prefix_append _ [other]).trans parent) outside

/-- A search allowed in a directory stays within what the session may read exactly when no
protected place below the directory is occupied. -/
theorem search_isolated_iff (policy : AgentAccessPolicy) (tree : FileTree) (cwd dir : Path)
    (text : List Char) (tool : ReadTool) (place : resolve cwd text = some dir)
    (allowed : policy.checkPathAccess tree text tool cwd = none) :
    policy.ReadsBelow tree cwd dir ↔ policy.Clear tree cwd dir := by
  obtain ⟨resolved, found, plain, readable⟩ := checkPathAccess_eq_none_iff.mp allowed
  rw [place, Option.some.injEq] at found
  subst found
  constructor
  · exact ReadsBelow.clear
  · intro clear file stored below
    exact (checkPathAccess_file stored .read).mpr
      ⟨clear.plain stored below plain, clear.readable stored below readable⟩

private def samplePolicy : AgentAccessPolicy where
  projectRoot := ["srv".toList, "app".toList]
  projectsRoot := ["srv".toList, "app".toList, "projects".toList]
  agentProfileRoot := ["srv".toList, "app".toList, "agent_runtime_profile".toList]
  logDir := ["srv".toList, "app".toList, "logs".toList]
  claudeProjectsDir := ["root".toList, ".claude".toList, "projects".toList]
  tempDir := ["tmp".toList]

private def sampleFiles : List Path :=
  [["srv".toList, "app".toList, ".env".toList],
    ["srv".toList, "app".toList, "logs".toList, "server.log".toList],
    ["srv".toList, "app".toList, "projects".toList, "a".toList, "project.json".toList],
    ["srv".toList, "app".toList, "projects".toList, "b".toList, "project.json".toList]]

private def sampleDirs : List Path :=
  [[], ["srv".toList], ["srv".toList, "app".toList], ["srv".toList, "app".toList, "logs".toList],
    ["srv".toList, "app".toList, "projects".toList],
    ["srv".toList, "app".toList, "projects".toList, "a".toList],
    ["srv".toList, "app".toList, "projects".toList, "b".toList]]

private theorem sample_names :
    ∀ path ∈ sampleFiles ++ sampleDirs, ∀ name ∈ path, name ≠ [] ∧ (∀ c ∈ name, isSlash c = false) ∧
      Char.ofNat 0 ∉ name ∧ name ≠ ".".toList ∧ name ≠ "..".toList := by
  have filled : ∀ path ∈ sampleFiles ++ sampleDirs, ∀ name ∈ path, name ≠ [] ∧
      Char.ofNat 0 ∉ name ∧ name ≠ ".".toList ∧ name ≠ "..".toList := by
    decide
  have whole : ∀ path ∈ sampleFiles ++ sampleDirs, ∀ name ∈ path,
      (name.all fun c => decide (isSlash c = false)) = true := by
    decide
  intro path listed name member
  obtain ⟨solid, textual, here, above⟩ := filled path listed name member
  exact ⟨solid, forall_mem_of_all (whole path listed name member), textual, here, above⟩

private theorem sample_above : ∀ path ∈ sampleFiles ++ sampleDirs, ∀ parent ∈ path.inits,
    parent ≠ path → parent ∈ sampleDirs := by
  decide

private def sampleTree : FileTree where
  files := sampleFiles
  dirs := sampleDirs
  names := by
    intro path listed name member
    obtain ⟨filled, whole, textual, here, above⟩ := sample_names path listed name member
    exact ⟨filled, whole, textual, here, above⟩
  above path listed parent front := sample_above path listed parent ((List.mem_inits _ _).mpr front)
  apart := by decide

private def sampleCwd : Path := ["srv".toList, "app".toList, "projects".toList, "a".toList]

theorem own_directory_isolated :
    samplePolicy.ReadsBelow sampleTree sampleCwd sampleCwd ↔
      samplePolicy.Clear sampleTree sampleCwd sampleCwd :=
  search_isolated_iff samplePolicy sampleTree sampleCwd sampleCwd ".".toList .glob
    (by decide) (by decide)

/-- From project `a` a search may start in `..`, which holds project `b`, and in the repository
root, which holds the dotenv file and the logs. -/
theorem search_escapes :
    sampleCwd ∈ sampleTree.dirs ∧
      samplePolicy.checkPathAccess sampleTree "..".toList .glob sampleCwd = none ∧
      resolve sampleCwd "..".toList = some samplePolicy.projectsRoot ∧
      ¬samplePolicy.ReadsBelow sampleTree sampleCwd samplePolicy.projectsRoot ∧
      samplePolicy.checkPathAccess sampleTree "../..".toList .grep sampleCwd = none ∧
      resolve sampleCwd "../..".toList = some samplePolicy.projectRoot ∧
      (samplePolicy.checkPathAccess sampleTree "/srv/app/.env".toList .read sampleCwd).isSome ∧
      (samplePolicy.checkPathAccess sampleTree "/srv/app/logs/server.log".toList .read
        sampleCwd).isSome := by
  unfold ReadsBelow
  decide

end Isolation

end AgentAccessPolicy

end ArcReel.Access
