import Mathlib.Logic.Relation
import Mathlib.Tactic

/-! Programs of SQL statements, run by any number of sessions under read
committed isolation. Every statement is atomic. A session sees the committed
rows and its own uncommitted versions; a row with an uncommitted version is
locked, and a foreign statement that would write it waits. The same programs
can also be run alone on one table. -/

namespace ArcReel.Lib.SqlSession
set_option linter.unusedSectionVars false

/-- What a program does once a statement has answered: it runs `push` before
the statements still waiting, or an exception leaves the program. -/
inductive Next (I O : Type) where
  | go (push : List I) (emit : List O)
  | raise

/-- The effect of one statement. An update answers its row count; an insert
that clashes with a visible row answers `dup` and writes nothing. -/
inductive Action (R I O : Type) where
  | query (answer : List R → Next I O)
  | update (hits : R → Bool) (write : R → R) (answer : Nat → Next I O)
  | insert (row : R) (clashes : R → Bool) (done dup : Next I O)
  | commit
  | rollback

/-- A row: its committed version, and the version of the session that locks it. -/
structure Cell (S R : Type) where
  committed : Option R
  pending : Option (S × R)

variable {S R I O T P : Type} [DecidableEq S]

namespace Cell

def versions (c : Cell S R) : List R :=
  c.committed.toList ++ (c.pending.map Prod.snd).toList

def view (s : S) (c : Cell S R) : Option R :=
  match c.pending with
  | some (owner, row) => if owner = s then some row else c.committed
  | none => c.committed

def foreign (s : S) (c : Cell S R) : Bool :=
  match c.pending with
  | some (owner, _) => decide (owner ≠ s)
  | none => false

def write (s : S) (hits : R → Bool) (f : R → R) (c : Cell S R) : Cell S R :=
  match c.view s with
  | some row => if hits row then ⟨c.committed, some (s, f row)⟩ else c
  | none => c

def commit (s : S) (c : Cell S R) : Cell S R :=
  match c.pending with
  | some (owner, row) => if owner = s then ⟨some row, none⟩ else c
  | none => c

def rollback (s : S) (c : Cell S R) : Cell S R :=
  match c.pending with
  | some (owner, _) => if owner = s then ⟨c.committed, none⟩ else c
  | none => c

end Cell

namespace Action

/-- The answer of a statement on the rows that its session sees. -/
def answer (table : List R) : Action R I O → Next I O
  | .query answer => answer table
  | .update hits _ answer => answer (table.countP hits)
  | .insert _ clashes done dup => if table.any clashes then dup else done
  | .commit | .rollback => .go [] []

/-- The statement needs a row that another session has locked. -/
def waits (s : S) (cells : List (Cell S R)) : Action R I O → Bool
  | .update hits _ _ => cells.any fun c => c.foreign s && (c.view s).any hits
  | .insert _ clashes _ _ => cells.any fun c => c.foreign s && c.versions.any clashes
  | .query _ | .commit | .rollback => false

def apply (s : S) (cells : List (Cell S R)) : Action R I O → List (Cell S R)
  | .query _ => cells
  | .update hits f _ => cells.map (Cell.write s hits f)
  | .insert row clashes _ _ =>
      if (cells.filterMap (Cell.view s)).any clashes then cells else cells ++ [⟨none, some (s, row)⟩]
  | .commit => cells.map (Cell.commit s)
  | .rollback => cells.map (Cell.rollback s)

/-- The part of a session's outputs that is still uncommitted after the statement. -/
def keep (log : List O) : Action R I O → List O
  | .commit | .rollback => []
  | .query _ | .update _ _ _ | .insert _ _ _ _ => log

def publish (published log : List O) : Action R I O → List O
  | .commit => published ++ log
  | .query _ | .update _ _ _ | .insert _ _ _ _ | .rollback => published

end Action

/-- The statements and outputs that a session has left after its statement `a`. -/
def Action.Continues (a : Action R I O) (table : List R) (rest : List I) (log : List O)
    (todo : List I) (outputs : List O) : Prop :=
  (∃ push emit, a.answer table = .go push emit ∧ todo = push ++ rest ∧
    outputs = a.keep log ++ emit) ∨
  (a.answer table = .raise ∧ todo = [] ∧ outputs = [])

structure Session (I O : Type) where
  todo : List I
  log : List O

/-- `published` collects the outputs of the transactions that have committed. -/
structure World (S R I O : Type) where
  cells : List (Cell S R)
  sessions : S → Session I O
  published : List O

namespace World

def empty : World S R I O := ⟨[], fun _ => ⟨[], []⟩, []⟩

def rows (w : World S R I O) (s : S) : List R := w.cells.filterMap (Cell.view s)

def committed (w : World S R I O) : List R := w.cells.filterMap Cell.committed

/-- A session with nothing left to do is closed: what it did not commit is undone. -/
def resume (w : World S R I O) (s : S) (todo : List I) (log : List O) : World S R I O :=
  ⟨if todo.isEmpty then w.cells.map (Cell.rollback s) else w.cells,
    Function.update w.sessions s ⟨todo, log⟩, w.published⟩

@[simp] theorem resume_sessions_self (w : World S R I O) (s : S) (todo : List I) (log : List O) :
    (w.resume s todo log).sessions s = ⟨todo, log⟩ :=
  Function.update_self s _ _

theorem resume_sessions_of_ne (w : World S R I O) {s s' : S} (other : s' ≠ s) (todo : List I)
    (log : List O) : (w.resume s todo log).sessions s' = w.sessions s' :=
  Function.update_of_ne other _ _

@[simp] theorem resume_published (w : World S R I O) (s : S) (todo : List I) (log : List O) :
    (w.resume s todo log).published = w.published := rfl

/-- `none` means that the statement waits for another session's row lock. -/
def perform (w : World S R I O) (s : S) (rest : List I) (a : Action R I O) :
    Option (World S R I O) :=
  if a.waits s w.cells then none
  else
    let log := (w.sessions s).log
    let moved : World S R I O := ⟨a.apply s w.cells, w.sessions, a.publish w.published log⟩
    match a.answer (w.rows s) with
    | .go push emit => some (moved.resume s (push ++ rest) (a.keep log ++ emit))
    | .raise => some (moved.resume s [] [])

end World

/-- The scheduler opens a session on an operation, lets a session execute its
next statement at a clock reading, or kills a session. -/
inductive Turn (S T P : Type) where
  | start (s : S) (op : P)
  | exec (s : S) (now : T)
  | abort (s : S)

section Runs

variable (prog : P → List I) (act : T → I → Action R I O)

def turn (w : World S R I O) : Turn S T P → Option (World S R I O)
  | .start s op =>
      if (w.sessions s).todo.isEmpty then
        some { w with sessions := Function.update w.sessions s ⟨prog op, []⟩ }
      else none
  | .exec s now =>
      match (w.sessions s).todo with
      | [] => none
      | stmt :: rest => w.perform s rest (act now stmt)
  | .abort s => some (w.resume s [] [])

def run : List (Turn S T P) → World S R I O → Option (World S R I O)
  | [], w => some w
  | t :: ts, w => (turn prog act w t).bind (run ts)

end Runs

/-- The rows that a session sees after a statement, when it is alone. -/
def Action.change (committed working : List R) : Action R I O → List R
  | .query _ | .commit => working
  | .update hits f _ => working.map fun r => if hits r then f r else r
  | .insert row clashes _ _ => if working.any clashes then working else working ++ [row]
  | .rollback => committed

def Action.settle (committed working : List R) : Action R I O → List R
  | .commit => working
  | .query _ | .update _ _ _ | .insert _ _ _ _ | .rollback => committed

theorem Action.settle_of_ne {a : Action R I O} (not : a ≠ .commit) (committed working : List R) :
    a.settle committed working = committed := by
  cases a with
  | commit => exact absurd rfl not
  | _ => rfl

/-- One session on a table of its own. -/
structure Solo (R I O : Type) where
  committed : List R
  working : List R
  todo : List I
  out : List O

namespace Solo

def start (table : List R) (todo : List I) : Solo R I O := ⟨table, table, todo, []⟩

def perform (st : Solo R I O) (rest : List I) (a : Action R I O) : Solo R I O :=
  let committed := a.settle st.committed st.working
  match a.answer st.working with
  | .go push emit =>
      ⟨committed, a.change st.committed st.working, push ++ rest, st.out ++ emit⟩
  | .raise => ⟨committed, committed, [], st.out⟩

theorem perform_cases (st : Solo R I O) (rest : List I) (a : Action R I O) :
    (∃ push emit, a.answer st.working = .go push emit ∧
      st.perform rest a = ⟨a.settle st.committed st.working, a.change st.committed st.working,
        push ++ rest, st.out ++ emit⟩) ∨
    (a.answer st.working = .raise ∧
      st.perform rest a = ⟨a.settle st.committed st.working, a.settle st.committed st.working, [],
        st.out⟩) := by
  unfold perform
  cases said : a.answer st.working with
  | go push emit => exact .inl ⟨push, emit, rfl, rfl⟩
  | raise => exact .inr ⟨rfl, rfl⟩

/-- One statement for each clock reading, until the program is exhausted. -/
def run (act : T → I → Action R I O) : List T → Solo R I O → Solo R I O
  | [], st => st
  | now :: later, st =>
      match st.todo with
      | [] => st
      | stmt :: rest => run act later (st.perform rest (act now stmt))

/-- The invariant rule for a session that is alone. -/
theorem run_induct {act : T → I → Action R I O} (Inv : Solo R I O → Prop)
    (step : ∀ st now stmt rest, st.todo = stmt :: rest → Inv st →
      Inv (st.perform rest (act now stmt))) :
    ∀ ticks st, Inv st → Inv (run act ticks st) := by
  intro ticks
  induction ticks with
  | nil => exact fun st inv => inv
  | cons now later ih =>
    intro st inv
    unfold run
    split
    · exact inv
    next stmt rest waiting => exact ih _ (step st now stmt rest waiting inv)

/-- A program ends when every statement uses up some of a measure. -/
theorem run_done [Inhabited T] {act : T → I → Action R I O} (Inv : Solo R I O → Prop) (size : Solo R I O → Nat)
    (step : ∀ st now stmt rest, st.todo = stmt :: rest → Inv st →
      Inv (st.perform rest (act now stmt)) ∧
        size (st.perform rest (act now stmt)) < size st) :
    ∀ ticks st, Inv st → size st ≤ ticks.length → (run act ticks st).todo = [] := by
  intro ticks
  induction ticks with
  | nil =>
    intro st inv small
    cases waiting : st.todo with
    | nil => exact waiting
    | cons stmt rest =>
      obtain ⟨-, less⟩ := step st default stmt rest waiting inv
      simp only [List.length_nil] at small
      omega
  | cons now later ih =>
    intro st inv small
    unfold run
    split
    next done => exact done
    next stmt rest waiting =>
      obtain ⟨inv', less⟩ := step st now stmt rest waiting inv
      exact ih _ inv' (by simp only [List.length_cons] at small; omega)

end Solo

/-- The effect of executing one statement, whatever the statement is. -/
theorem World.perform_eq_some {w v : World S R I O} {s : S} {rest : List I} {a : Action R I O}
    (performed : w.perform s rest a = some v) :
    a.waits s w.cells = false ∧ ∃ todo log,
      v = World.resume ⟨a.apply s w.cells, w.sessions,
        a.publish w.published (w.sessions s).log⟩ s todo log ∧
      a.Continues (w.rows s) rest (w.sessions s).log todo log := by
  unfold World.perform at performed
  split_ifs at performed with waiting
  refine ⟨by simpa using waiting, ?_⟩
  cases said : a.answer (w.rows s) with
  | go push emit =>
    simp only [said, Option.some.injEq] at performed
    exact ⟨_, _, performed.symm, .inl ⟨push, emit, said, rfl, rfl⟩⟩
  | raise =>
    simp only [said, Option.some.injEq] at performed
    exact ⟨_, _, performed.symm, .inr ⟨said, rfl, rfl⟩⟩

/-- The three ways a world can move. -/
theorem turn_eq_some {prog : P → List I} {act : T → I → Action R I O} {w v : World S R I O}
    {t : Turn S T P} (taken : turn prog act w t = some v) :
    (∃ s op, t = .start s op ∧ (w.sessions s).todo = [] ∧
      v = { w with sessions := Function.update w.sessions s ⟨prog op, []⟩ }) ∨
    (∃ s now stmt rest, t = .exec s now ∧ (w.sessions s).todo = stmt :: rest ∧
      w.perform s rest (act now stmt) = some v) ∨
    (∃ s, t = .abort s ∧ v = w.resume s [] []) := by
  cases t with
  | start s op =>
    simp only [turn] at taken
    split_ifs at taken with idle
    exact .inl ⟨s, op, rfl, by simpa using idle, (Option.some.inj taken).symm⟩
  | exec s now =>
    simp only [turn] at taken
    split at taken
    · cases taken
    next stmt rest waiting => exact .inr (.inl ⟨s, now, stmt, rest, rfl, waiting, taken⟩)
  | abort s => exact .inr (.inr ⟨s, rfl, (Option.some.inj taken).symm⟩)

/-- The invariant rule for runs. -/
theorem run_induct {prog : P → List I} {act : T → I → Action R I O} (Inv : World S R I O → Prop)
    (step : ∀ w v t, Inv w → turn prog act w t = some v → Inv v) :
    ∀ (ts : List (Turn S T P)) (w v : World S R I O), Inv w → run prog act ts w = some v → Inv v := by
  intro ts
  induction ts with
  | nil =>
    intro w v inv ran
    obtain rfl := Option.some.inj ran
    exact inv
  | cons t ts ih =>
    intro w v inv ran
    obtain ⟨u, taken, later⟩ := Option.bind_eq_some_iff.mp ran
    exact ih u v (step w u t inv taken) later

/-- Every turn of the run meets a condition on the world before it. -/
def allTurns (prog : P → List I) (act : T → I → Action R I O)
    (cond : World S R I O → Turn S T P → Bool) : List (Turn S T P) → World S R I O → Bool
  | [], _ => true
  | t :: ts, w => cond w t && (turn prog act w t).all (allTurns prog act cond ts)

/-- The invariant rule for runs that meet a condition. -/
theorem run_induct_of {prog : P → List I} {act : T → I → Action R I O}
    {cond : World S R I O → Turn S T P → Bool} (Inv : World S R I O → Prop)
    (step : ∀ w v t, Inv w → cond w t = true → turn prog act w t = some v → Inv v) :
    ∀ (ts : List (Turn S T P)) (w v : World S R I O), Inv w → allTurns prog act cond ts w = true →
      run prog act ts w = some v → Inv v := by
  intro ts
  induction ts with
  | nil =>
    intro w v inv _ ran
    obtain rfl := Option.some.inj ran
    exact inv
  | cons t ts ih =>
    intro w v inv meets ran
    obtain ⟨u, taken, later⟩ := Option.bind_eq_some_iff.mp ran
    simp only [allTurns, taken, Option.all_some, Bool.and_eq_true] at meets
    exact ih u v (step w u t inv meets.1 taken) meets.2 later

/-! Every version of a row descends from its committed version through guarded
updates, so a property that each guarded update keeps holds along every run. -/

section Evolution

open Relation

/-- Every update moves a valid row along `Step`, and inserted rows are valid. -/
structure Guarded (Valid : R → Prop) (Step : R → R → Prop) (act : T → I → Action R I O) :
    Prop where
  update : ∀ {now stmt hits f answer}, act now stmt = .update hits f answer →
    ∀ r, Valid r → hits r = true → Step r (f r) ∧ Valid (f r)
  insert : ∀ {now stmt row clashes done dup},
    act now stmt = .insert row clashes done dup → Valid row

structure Cell.Sound (Valid : R → Prop) (Step : R → R → Prop) (c : Cell S R) : Prop where
  committed : ∀ r, c.committed = some r → Valid r
  pending : ∀ s r, c.pending = some (s, r) → Valid r
  descends : ∀ s r old, c.pending = some (s, r) → c.committed = some old → ReflTransGen Step old r

/-- The committed version of `d` descends from the committed version of `c`. -/
def Cell.Later (Step : R → R → Prop) (c d : Cell S R) : Prop :=
  ∀ r, c.committed = some r → ∃ r', d.committed = some r' ∧ ReflTransGen Step r r'

variable {Valid : R → Prop} {Step : R → R → Prop}

theorem Cell.Later.rfl {c : Cell S R} : c.Later Step c :=
  fun r found => ⟨r, found, .refl⟩

theorem Cell.Later.trans {c d e : Cell S R} (first : c.Later Step d) (second : d.Later Step e) :
    c.Later Step e := by
  intro r found
  obtain ⟨r', found', moved⟩ := first r found
  obtain ⟨r'', found'', moved'⟩ := second r' found'
  exact ⟨r'', found'', moved.trans moved'⟩

theorem Cell.view_sound {c : Cell S R} (sound : c.Sound Valid Step) {s : S} {r : R}
    (seen : c.view s = some r) :
    Valid r ∧ ∀ old, c.committed = some old → ReflTransGen Step old r := by
  unfold Cell.view at seen
  split at seen
  next owner row lock =>
    split_ifs at seen
    · obtain rfl := Option.some.inj seen
      exact ⟨sound.pending _ _ lock, fun old base => sound.descends _ _ old lock base⟩
    · refine ⟨sound.committed r seen, fun old base => ?_⟩
      rw [seen] at base
      obtain rfl := Option.some.inj base
      exact .refl
  next =>
    refine ⟨sound.committed r seen, fun old base => ?_⟩
    rw [seen] at base
    obtain rfl := Option.some.inj base
    exact .refl

theorem Cell.write_sound {c : Cell S R} (sound : c.Sound Valid Step) (s : S) {hits : R → Bool}
    {f : R → R} (guarded : ∀ r, Valid r → hits r = true → Step r (f r) ∧ Valid (f r)) :
    (c.write s hits f).Sound Valid Step ∧ c.Later Step (c.write s hits f) := by
  unfold Cell.write
  split
  next row seen =>
    split_ifs with hit
    · obtain ⟨valid, descends⟩ := Cell.view_sound sound seen
      obtain ⟨moved, valid'⟩ := guarded row valid hit
      refine ⟨⟨sound.committed, ?_, ?_⟩, fun r found => ⟨r, found, .refl⟩⟩
      · rintro _ _ ⟨⟩
        exact valid'
      · rintro _ _ old ⟨⟩ base
        exact (descends old base).tail moved
    · exact ⟨sound, .rfl⟩
  next => exact ⟨sound, .rfl⟩

theorem Cell.commit_sound {c : Cell S R} (sound : c.Sound Valid Step) (s : S) :
    (c.commit s).Sound Valid Step ∧ c.Later Step (c.commit s) := by
  unfold Cell.commit
  split
  next owner row lock =>
    split_ifs
    · refine ⟨⟨?_, by simp, by simp⟩, fun r found => ⟨row, rfl, sound.descends _ _ r lock found⟩⟩
      rintro _ ⟨⟩
      exact sound.pending _ _ lock
    · exact ⟨sound, .rfl⟩
  next => exact ⟨sound, .rfl⟩

theorem Cell.rollback_sound {c : Cell S R} (sound : c.Sound Valid Step) (s : S) :
    (c.rollback s).Sound Valid Step ∧ c.Later Step (c.rollback s) := by
  unfold Cell.rollback
  split
  next owner row lock =>
    split_ifs
    · exact ⟨⟨sound.committed, by simp, by simp⟩, fun r found => ⟨r, found, .refl⟩⟩
    · exact ⟨sound, .rfl⟩
  next => exact ⟨sound, .rfl⟩

def CellsSound (Valid : R → Prop) (Step : R → R → Prop) (cells : List (Cell S R)) : Prop :=
  ∀ c ∈ cells, c.Sound Valid Step

/-- Cells keep their place, and their committed versions descend from the old ones. -/
def CellsLater (Step : R → R → Prop) (before after : List (Cell S R)) : Prop :=
  ∀ (i : Nat) c, before[i]? = some c → ∃ d, after[i]? = some d ∧ c.Later Step d

theorem CellsLater.rfl {cells : List (Cell S R)} : CellsLater Step cells cells :=
  fun _ c found => ⟨c, found, .rfl⟩

theorem CellsLater.trans {a b c : List (Cell S R)} (first : CellsLater Step a b)
    (second : CellsLater Step b c) : CellsLater Step a c := by
  intro i x found
  obtain ⟨y, found', later⟩ := first i x found
  obtain ⟨z, found'', later'⟩ := second i y found'
  exact ⟨z, found'', later.trans later'⟩

/-- A change of every cell that is sound cell by cell. -/
theorem map_sound {cells : List (Cell S R)} (g : Cell S R → Cell S R)
    (sound : CellsSound Valid Step cells)
    (each : ∀ c, c.Sound Valid Step → (g c).Sound Valid Step ∧ c.Later Step (g c)) :
    CellsSound Valid Step (cells.map g) ∧ CellsLater Step cells (cells.map g) := by
  constructor
  · intro c member
    obtain ⟨d, old, rfl⟩ := List.mem_map.mp member
    exact (each d (sound d old)).1
  · intro i c found
    refine ⟨g c, ?_, (each c (sound c (List.mem_of_getElem? found))).2⟩
    rw [List.getElem?_map, found]
    rfl

theorem append_sound {cells : List (Cell S R)} (sound : CellsSound Valid Step cells) (s : S)
    {row : R} (valid : Valid row) :
    CellsSound Valid Step (cells ++ [⟨none, some (s, row)⟩]) ∧
      CellsLater Step cells (cells ++ [⟨none, some (s, row)⟩]) := by
  constructor
  · intro c member
    rcases List.mem_append.mp member with old | new
    · exact sound c old
    · obtain rfl := List.mem_singleton.mp new
      refine ⟨by simp, ?_, by simp⟩
      rintro _ _ ⟨⟩
      exact valid
  · intro i c found
    refine ⟨c, ?_, .rfl⟩
    rw [List.getElem?_append_left (List.getElem?_eq_some_iff.mp found).1, found]

theorem apply_sound {act : T → I → Action R I O} (guarded : Guarded Valid Step act)
    {cells : List (Cell S R)} (sound : CellsSound Valid Step cells) (s : S) (now : T) (stmt : I) :
    CellsSound Valid Step ((act now stmt).apply s cells) ∧
      CellsLater Step cells ((act now stmt).apply s cells) := by
  cases action : act now stmt with
  | query answer => exact ⟨sound, .rfl⟩
  | update hits f answer =>
    exact map_sound (Cell.write s hits f) sound
      (fun c ok => Cell.write_sound ok s (guarded.update action))
  | insert row clashes done dup =>
    simp only [Action.apply]
    split_ifs
    · exact ⟨sound, .rfl⟩
    · exact append_sound sound s (guarded.insert action)
  | commit => exact map_sound (Cell.commit s) sound (fun c ok => Cell.commit_sound ok s)
  | rollback => exact map_sound (Cell.rollback s) sound (fun c ok => Cell.rollback_sound ok s)

theorem resume_sound {w : World S R I O} (sound : CellsSound Valid Step w.cells) (s : S)
    (todo : List I) (log : List O) :
    CellsSound Valid Step (w.resume s todo log).cells ∧
      CellsLater Step w.cells (w.resume s todo log).cells := by
  simp only [World.resume]
  split_ifs
  · exact map_sound (Cell.rollback s) sound (fun c ok => Cell.rollback_sound ok s)
  · exact ⟨sound, .rfl⟩

theorem turn_sound {prog : P → List I} {act : T → I → Action R I O}
    (guarded : Guarded Valid Step act) {w v : World S R I O} {t : Turn S T P}
    (sound : CellsSound Valid Step w.cells) (taken : turn prog act w t = some v) :
    CellsSound Valid Step v.cells ∧ CellsLater Step w.cells v.cells := by
  rcases turn_eq_some taken with ⟨s, op, rfl, _, rfl⟩ | ⟨s, now, stmt, rest, rfl, _, performed⟩ |
    ⟨s, rfl, rfl⟩
  · exact ⟨sound, .rfl⟩
  · obtain ⟨_, todo, log, rfl, _⟩ := World.perform_eq_some performed
    obtain ⟨ok, later⟩ := apply_sound guarded sound s now stmt
    obtain ⟨ok', later'⟩ := resume_sound (w := ⟨_, w.sessions, _⟩) ok s todo log
    exact ⟨ok', later.trans later'⟩
  · exact resume_sound sound s [] []

theorem run_sound {prog : P → List I} {act : T → I → Action R I O}
    (guarded : Guarded Valid Step act) (ts : List (Turn S T P)) {w v : World S R I O}
    (sound : CellsSound Valid Step w.cells) (ran : run prog act ts w = some v) :
    CellsSound Valid Step v.cells ∧ CellsLater Step w.cells v.cells := by
  refine run_induct (fun u => CellsSound Valid Step u.cells ∧ CellsLater Step w.cells u.cells)
    ?_ ts w v ⟨sound, .rfl⟩ ran
  intro u u' t ⟨ok, later⟩ taken
  obtain ⟨ok', later'⟩ := turn_sound guarded ok taken
  exact ⟨ok', later.trans later'⟩

end Evolution

/-! A key that updates keep and that clashing inserts respect stays unique. -/

section Keys

variable {K : Type} {Valid : R → Prop} {Step : R → R → Prop}

structure Keyed (key : R → K) (Step : R → R → Prop) (act : T → I → Action R I O) : Prop where
  keeps : ∀ {r q}, Step r q → key q = key r
  apart : ∀ {now stmt row clashes done dup}, act now stmt = .insert row clashes done dup →
    ∀ r, clashes r = false → key r ≠ key row

def KeysDistinct (key : R → K) (cells : List (Cell S R)) : Prop :=
  cells.Pairwise fun c d => ∀ r ∈ c.versions, ∀ q ∈ d.versions, key r ≠ key q

variable {key : R → K} {act : T → I → Action R I O}

theorem Keyed.keeps_descendants (keyed : Keyed key Step act) {r q : R}
    (moved : Relation.ReflTransGen Step r q) : key q = key r := by
  induction moved with
  | refl => rfl
  | tail _ step ih => rw [keyed.keeps step, ih]

theorem Cell.committed_mem_versions {c : Cell S R} {r : R} (found : c.committed = some r) :
    r ∈ c.versions := by
  simp [Cell.versions, found]

theorem Cell.view_mem_versions {c : Cell S R} {s : S} {r : R} (seen : c.view s = some r) :
    r ∈ c.versions := by
  unfold Cell.view at seen
  split at seen
  next owner row lock =>
    split_ifs at seen <;> simp_all [Cell.versions]
  next => simp [Cell.versions, seen]

theorem Cell.write_versions {c : Cell S R} {s : S} {hits : R → Bool} {f : R → R} {r : R}
    (member : r ∈ (c.write s hits f).versions) :
    r ∈ c.versions ∨ ∃ q ∈ c.versions, c.view s = some q ∧ hits q = true ∧ r = f q := by
  unfold Cell.write at member
  split at member
  next row seen =>
    split_ifs at member with hit
    · simp only [Cell.versions, List.mem_append, Option.mem_toList, Option.map_some] at member
      rcases member with old | new
      · exact .inl (by simp [Cell.versions, old])
      · exact .inr ⟨row, Cell.view_mem_versions seen, seen, hit, (Option.some.inj new).symm⟩
    · exact .inl member
  next => exact .inl member

theorem Cell.commit_versions {c : Cell S R} {s : S} {r : R}
    (member : r ∈ (c.commit s).versions) : r ∈ c.versions := by
  unfold Cell.commit at member
  split at member
  next owner row lock =>
    split_ifs at member
    · simp_all [Cell.versions]
    · exact member
  next => exact member

theorem Cell.rollback_versions {c : Cell S R} {s : S} {r : R}
    (member : r ∈ (c.rollback s).versions) : r ∈ c.versions := by
  unfold Cell.rollback at member
  split at member
  next owner row lock =>
    split_ifs at member
    · simp_all [Cell.versions]
    · exact member
  next => exact member

/-- Where the versions of a row come from when a statement is applied. -/
theorem apply_versions {cells : List (Cell S R)} {s : S} {a : Action R I O} {d : Cell S R}
    (member : d ∈ a.apply s cells) {r : R} (version : r ∈ d.versions) :
    (∃ c ∈ cells, r ∈ c.versions) ∨
      (∃ hits f answer, a = .update hits f answer ∧
        ∃ c ∈ cells, ∃ q ∈ c.versions, c.view s = some q ∧ hits q = true ∧ r = f q) ∨
      (∃ clashes done dup, a = .insert r clashes done dup) := by
  cases a with
  | query answer => exact .inl ⟨d, member, version⟩
  | update hits f answer =>
    obtain ⟨c, old, rfl⟩ := List.mem_map.mp member
    rcases Cell.write_versions version with same | ⟨q, written⟩
    · exact .inl ⟨c, old, same⟩
    · exact .inr (.inl ⟨hits, f, answer, rfl, c, old, q, written⟩)
  | insert row clashes done dup =>
    simp only [Action.apply] at member
    split_ifs at member
    · exact .inl ⟨d, member, version⟩
    · rcases List.mem_append.mp member with old | new
      · exact .inl ⟨d, old, version⟩
      · obtain rfl := List.mem_singleton.mp new
        have same : r = row := by simpa [Cell.versions] using version
        subst same
        exact .inr (.inr ⟨clashes, done, dup, rfl⟩)
  | commit =>
    obtain ⟨c, old, rfl⟩ := List.mem_map.mp member
    exact .inl ⟨c, old, Cell.commit_versions version⟩
  | rollback =>
    obtain ⟨c, old, rfl⟩ := List.mem_map.mp member
    exact .inl ⟨c, old, Cell.rollback_versions version⟩

theorem resume_versions {w : World S R I O} {s : S} {todo : List I} {log : List O} {d : Cell S R}
    (member : d ∈ (w.resume s todo log).cells) {r : R} (version : r ∈ d.versions) :
    ∃ c ∈ w.cells, r ∈ c.versions := by
  simp only [World.resume] at member
  split_ifs at member
  · obtain ⟨c, old, rfl⟩ := List.mem_map.mp member
    exact ⟨c, old, Cell.rollback_versions version⟩
  · exact ⟨d, member, version⟩

theorem map_keysDistinct {cells : List (Cell S R)} (g : Cell S R → Cell S R)
    (distinct : KeysDistinct key cells)
    (each : ∀ c ∈ cells, ∀ r ∈ (g c).versions, ∃ q ∈ c.versions, key r = key q) :
    KeysDistinct key (cells.map g) := by
  unfold KeysDistinct at *
  rw [List.pairwise_map]
  refine List.Pairwise.imp_of_mem ?_ distinct
  intro c d memberC memberD apart r memberR q memberQ same
  obtain ⟨r', oldR, keyR⟩ := each c memberC r memberR
  obtain ⟨q', oldQ, keyQ⟩ := each d memberD q memberQ
  exact apart r' oldR q' oldQ (keyR.symm.trans (same.trans keyQ))

theorem resume_keysDistinct {w : World S R I O} (distinct : KeysDistinct key w.cells) (s : S)
    (todo : List I) (log : List O) : KeysDistinct key (w.resume s todo log).cells := by
  simp only [World.resume]
  split_ifs
  · exact map_keysDistinct (Cell.rollback s) distinct
      (fun c _ r member => ⟨r, Cell.rollback_versions member, rfl⟩)
  · exact distinct

/-- An insert that neither waits nor clashes has a key of its own. -/
theorem insert_apart {cells : List (Cell S R)} (keyed : Keyed key Step act)
    (sound : CellsSound Valid Step cells) {s : S} {now : T} {stmt : I} {row : R}
    {clashes : R → Bool} {done dup : Next I O} (action : act now stmt = .insert row clashes done dup)
    (free : (act now stmt).waits s cells = false)
    (fresh : (cells.filterMap (Cell.view s)).any clashes = false)
    (c : Cell S R) (member : c ∈ cells) (r : R) (version : r ∈ c.versions) : key r ≠ key row := by
  rw [action] at free
  simp only [Action.waits, List.any_eq_false, Bool.and_eq_true, not_and] at free
  simp only [List.any_eq_false] at fresh
  have visible : ∀ x, c.view s = some x → clashes x = false := fun x seen => by
    simpa using fresh x (List.mem_filterMap.mpr ⟨c, member, seen⟩)
  cases lock : c.pending with
  | none =>
    have seen : c.view s = some r := by simpa [Cell.versions, Cell.view, lock] using version
    exact keyed.apart action r (visible r seen)
  | some held =>
    obtain ⟨owner, mine⟩ := held
    by_cases own : owner = s
    · have seen : c.view s = some mine := by simp [Cell.view, lock, own]
      have apart := keyed.apart action mine (visible mine seen)
      have either : c.committed = some r ∨ r = mine := by
        simpa [Cell.versions, lock] using version
      rcases either with base | rfl
      · rw [← keyed.keeps_descendants ((sound c member).descends _ _ r lock base)]
        exact apart
      · exact apart
    · have foreign : c.foreign s = true := by simp [Cell.foreign, lock, own]
      have unhit := free c member foreign
      simp only [List.any_eq_true, not_exists, not_and] at unhit
      exact keyed.apart action r (by simpa using unhit r version)

theorem apply_keysDistinct (guarded : Guarded Valid Step act) (keyed : Keyed key Step act)
    {cells : List (Cell S R)} (sound : CellsSound Valid Step cells)
    (distinct : KeysDistinct key cells) {s : S} {now : T} {stmt : I}
    (free : (act now stmt).waits s cells = false) :
    KeysDistinct key ((act now stmt).apply s cells) := by
  cases action : act now stmt with
  | query answer => exact distinct
  | update hits f answer =>
    refine map_keysDistinct (Cell.write s hits f) distinct ?_
    intro c member r written
    rcases Cell.write_versions written with old | ⟨q, oldQ, seen, hit, rfl⟩
    · exact ⟨r, old, rfl⟩
    · have valid := (Cell.view_sound (sound c member) seen).1
      exact ⟨q, oldQ, keyed.keeps (guarded.update action q valid hit).1⟩
  | insert row clashes done dup =>
    simp only [Action.apply]
    split_ifs with clash
    · exact distinct
    · refine List.pairwise_append.mpr ⟨distinct, List.pairwise_singleton _ _, ?_⟩
      intro c member d new r version q versionQ
      obtain rfl := List.mem_singleton.mp new
      have same : q = row := by simpa [Cell.versions] using versionQ
      subst same
      exact insert_apart keyed sound action free (by simpa using clash) c member r version
  | commit =>
    exact map_keysDistinct (Cell.commit s) distinct
      (fun c _ r member => ⟨r, Cell.commit_versions member, rfl⟩)
  | rollback =>
    exact map_keysDistinct (Cell.rollback s) distinct
      (fun c _ r member => ⟨r, Cell.rollback_versions member, rfl⟩)

theorem turn_keysDistinct {prog : P → List I} (guarded : Guarded Valid Step act)
    (keyed : Keyed key Step act) {w v : World S R I O} {t : Turn S T P}
    (sound : CellsSound Valid Step w.cells) (distinct : KeysDistinct key w.cells)
    (taken : turn prog act w t = some v) : KeysDistinct key v.cells := by
  rcases turn_eq_some taken with ⟨s, op, rfl, _, rfl⟩ | ⟨s, now, stmt, rest, rfl, _, performed⟩ |
    ⟨s, rfl, rfl⟩
  · exact distinct
  · obtain ⟨free, todo, log, rfl, _⟩ := World.perform_eq_some performed
    exact resume_keysDistinct (w := ⟨_, w.sessions, _⟩)
      (apply_keysDistinct guarded keyed sound distinct free) s todo log
  · exact resume_keysDistinct distinct s [] []

/-- Two versions of equal keys are versions of one row. -/
theorem cell_unique {cells : List (Cell S R)} (distinct : KeysDistinct key cells)
    {c d : Cell S R} (memberC : c ∈ cells) (memberD : d ∈ cells) {r q : R}
    (versionR : r ∈ c.versions) (versionQ : q ∈ d.versions) (same : key r = key q) : c = d := by
  by_contra other
  have symmetric : Std.Symm fun c d : Cell S R =>
      ∀ r ∈ c.versions, ∀ q ∈ d.versions, key r ≠ key q :=
    ⟨fun _ _ apart r memberR q memberQ equal => apart q memberQ r memberR equal.symm⟩
  exact distinct.forall memberC memberD other r versionR q versionQ same

/-- With distinct keys, the committed rows are determined by their keys. -/
theorem committed_unique {cells : List (Cell S R)} (distinct : KeysDistinct key cells)
    {r q : R} (memberR : r ∈ cells.filterMap Cell.committed)
    (memberQ : q ∈ cells.filterMap Cell.committed) (same : key r = key q) : r = q := by
  obtain ⟨c, memberC, foundR⟩ := List.mem_filterMap.mp memberR
  obtain ⟨d, memberD, foundQ⟩ := List.mem_filterMap.mp memberQ
  obtain rfl := cell_unique distinct memberC memberD (Cell.committed_mem_versions foundR)
    (Cell.committed_mem_versions foundQ) same
  exact Option.some.inj (foundR.symm.trans foundQ)

/-- The rows that a session sees have distinct keys. -/
theorem rows_nodup {cells : List (Cell S R)} (distinct : KeysDistinct key cells) (s : S) :
    ((cells.filterMap (Cell.view s)).map key).Nodup := by
  unfold List.Nodup
  rw [List.pairwise_map, List.pairwise_filterMap]
  refine distinct.imp ?_
  intro c d apart r seenR q seenQ
  exact apart r (Cell.view_mem_versions seenR) q (Cell.view_mem_versions seenQ)

/-- Every version of the row with a committed key descends from the committed version. -/
theorem version_descends {cells : List (Cell S R)} (sound : CellsSound Valid Step cells)
    (distinct : KeysDistinct key cells) {r q : R} {c : Cell S R}
    (base : r ∈ cells.filterMap Cell.committed) (member : c ∈ cells) (version : q ∈ c.versions)
    (same : key r = key q) : Relation.ReflTransGen Step r q := by
  obtain ⟨d, memberD, found⟩ := List.mem_filterMap.mp base
  obtain rfl := cell_unique distinct memberD member (Cell.committed_mem_versions found) version same
  have either : d.committed = some q ∨ ∃ s, d.pending = some (s, q) := by
    simpa [Cell.versions] using version
  rcases either with first | ⟨s, lock⟩
  · rw [found] at first
    obtain rfl := Option.some.inj first
    exact .refl
  · exact (sound _ member).descends s q r lock found

end Keys

/-! Sessions that hold no row lock. -/

section Locks

def Unlocked (s : S) (cells : List (Cell S R)) : Prop :=
  ∀ c ∈ cells, ∀ r, c.pending ≠ some (s, r)

theorem Unlocked.rows_eq {s : S} {cells : List (Cell S R)} (unlocked : Unlocked s cells) :
    cells.filterMap (Cell.view s) = cells.filterMap Cell.committed := by
  refine List.filterMap_congr fun c member => ?_
  unfold Cell.view
  split
  next owner row lock =>
    have other : owner ≠ s := by
      rintro rfl
      exact unlocked c member row lock
    rw [if_neg other]
  next => rfl

theorem Unlocked.map {s : S} {cells : List (Cell S R)} (unlocked : Unlocked s cells)
    (g : Cell S R → Cell S R)
    (each : ∀ c r, (g c).pending = some (s, r) → ∃ q, c.pending = some (s, q)) :
    Unlocked s (cells.map g) := by
  intro d member r lock
  obtain ⟨c, old, rfl⟩ := List.mem_map.mp member
  obtain ⟨q, lock'⟩ := each c r lock
  exact unlocked c old q lock'

theorem Cell.rollback_pending {c : Cell S R} {s s' : S} {r : R}
    (lock : (c.rollback s).pending = some (s', r)) : c.pending = some (s', r) ∧ s' ≠ s := by
  unfold Cell.rollback at lock
  split at lock
  next owner row held =>
    split_ifs at lock with own
    rw [held] at lock
    obtain ⟨rfl, rfl⟩ := Prod.mk.inj (Option.some.inj lock)
    exact ⟨held, own⟩
  next free => simp [free] at lock

theorem Cell.commit_pending {c : Cell S R} {s s' : S} {r : R}
    (lock : (c.commit s).pending = some (s', r)) : c.pending = some (s', r) ∧ s' ≠ s := by
  unfold Cell.commit at lock
  split at lock
  next owner row held =>
    split_ifs at lock with own
    rw [held] at lock
    obtain ⟨rfl, rfl⟩ := Prod.mk.inj (Option.some.inj lock)
    exact ⟨held, own⟩
  next free => simp [free] at lock

theorem Cell.write_pending {c : Cell S R} {s s' : S} {hits : R → Bool} {f : R → R} {r : R}
    (lock : (c.write s hits f).pending = some (s', r)) :
    c.pending = some (s', r) ∨
      s' = s ∧ ∃ q, c.view s = some q ∧ hits q = true ∧ r = f q := by
  unfold Cell.write at lock
  split at lock
  next row seen =>
    split_ifs at lock with hit
    · obtain ⟨rfl, rfl⟩ := Prod.mk.inj (Option.some.inj lock)
      exact .inr ⟨rfl, row, seen, hit, rfl⟩
    · exact .inl lock
  next => exact .inl lock

theorem Unlocked.apply {s s' : S} {cells : List (Cell S R)} (unlocked : Unlocked s cells)
    (other : s ≠ s') (a : Action R I O) : Unlocked s (a.apply s' cells) := by
  cases a with
  | query answer => exact unlocked
  | update hits f answer =>
    refine unlocked.map _ fun c r lock => ?_
    rcases Cell.write_pending lock with held | ⟨same, _⟩
    · exact ⟨r, held⟩
    · exact absurd same other
  | insert row clashes done dup =>
    simp only [Action.apply]
    split_ifs
    · exact unlocked
    · intro c member r lock
      rcases List.mem_append.mp member with old | new
      · exact unlocked c old r lock
      · obtain rfl := List.mem_singleton.mp new
        exact other (Prod.mk.inj (Option.some.inj lock)).1.symm
  | commit => exact unlocked.map _ fun c r lock => ⟨r, (Cell.commit_pending lock).1⟩
  | rollback => exact unlocked.map _ fun c r lock => ⟨r, (Cell.rollback_pending lock).1⟩

theorem Unlocked.resume {s : S} {w : World S R I O} (unlocked : Unlocked s w.cells) (s' : S)
    (todo : List I) (log : List O) : Unlocked s (w.resume s' todo log).cells := by
  simp only [World.resume]
  split_ifs
  · exact unlocked.map _ fun c r lock => ⟨r, (Cell.rollback_pending lock).1⟩
  · exact unlocked

theorem commit_unlocked (s : S) (cells : List (Cell S R)) : Unlocked s (cells.map (Cell.commit s)) := by
  intro d member r lock
  obtain ⟨c, _, rfl⟩ := List.mem_map.mp member
  exact (Cell.commit_pending lock).2 rfl

theorem rollback_unlocked (s : S) (cells : List (Cell S R)) :
    Unlocked s (cells.map (Cell.rollback s)) := by
  intro d member r lock
  obtain ⟨c, _, rfl⟩ := List.mem_map.mp member
  exact (Cell.rollback_pending lock).2 rfl

theorem resume_nil_unlocked (w : World S R I O) (s : S) (log : List O) :
    Unlocked s (w.resume s [] log).cells :=
  rollback_unlocked s w.cells

/-- The rows that other sessions have locked are out of reach of a statement. -/
theorem apply_foreign {s s' : S} {cells : List (Cell S R)} {a : Action R I O}
    (free : a.waits s cells = false) (other : s' ≠ s) (d : Cell S R) (r : R)
    (lock : d.pending = some (s', r)) : d ∈ a.apply s cells ↔ d ∈ cells := by
  have keeps : ∀ g : Cell S R → Cell S R, (∀ c ∈ cells, ∀ q, c.pending = some (s', q) → g c = c) →
      (∀ c ∈ cells, ∀ q, (g c).pending = some (s', q) → c.pending = some (s', q)) →
      (d ∈ cells.map g ↔ d ∈ cells) := by
    intro g same back
    constructor
    · intro member
      obtain ⟨c, old, rfl⟩ := List.mem_map.mp member
      rwa [same c old r (back c old r lock)]
    · intro member
      exact List.mem_map.mpr ⟨d, member, same d member r lock⟩
  cases a with
  | query answer => rfl
  | update hits f answer =>
    refine keeps _ ?_ ?_
    · intro c member q held
      simp only [Action.waits, List.any_eq_false, Bool.and_eq_true, not_and] at free
      have foreign : c.foreign s = true := by simp [Cell.foreign, held, other]
      have unhit := free c member foreign
      unfold Cell.write
      split
      next row seen =>
        rw [if_neg]
        simpa [seen] using unhit
      next => rfl
    · intro c _ q held
      rcases Cell.write_pending held with same | ⟨same, _⟩
      · exact same
      · exact absurd same other
  | insert row clashes done dup =>
    simp only [Action.apply]
    split_ifs
    · rfl
    · simp only [List.mem_append, List.mem_singleton, or_iff_left_iff_imp]
      rintro rfl
      exact absurd (Prod.mk.inj (Option.some.inj lock)).1.symm other
  | commit =>
    refine keeps _ ?_ (fun c _ q held => (Cell.commit_pending held).1)
    intro c _ q held
    simp [Cell.commit, held, other]
  | rollback =>
    refine keeps _ ?_ (fun c _ q held => (Cell.rollback_pending held).1)
    intro c _ q held
    simp [Cell.rollback, held, other]

theorem resume_foreign {s s' : S} {w : World S R I O} (other : s' ≠ s) (todo : List I)
    (log : List O) (d : Cell S R) (r : R) (lock : d.pending = some (s', r)) :
    d ∈ (w.resume s todo log).cells ↔ d ∈ w.cells := by
  simp only [World.resume]
  split_ifs
  · exact apply_foreign (a := (.rollback : Action R I O)) rfl other d r lock
  · rfl

theorem map_committed {cells : List (Cell S R)} {g : Cell S R → Cell S R}
    (same : ∀ c, (g c).committed = c.committed) :
    (cells.map g).filterMap Cell.committed = cells.filterMap Cell.committed := by
  rw [List.filterMap_map]
  exact List.filterMap_congr fun c _ => same c

theorem Cell.rollback_committed (c : Cell S R) (s : S) : (c.rollback s).committed = c.committed := by
  unfold Cell.rollback
  split
  · split_ifs <;> rfl
  · rfl

/-- Only a commit changes what is committed. -/
theorem apply_committed {s : S} {cells : List (Cell S R)} {a : Action R I O} (not : a ≠ .commit) :
    (a.apply s cells).filterMap Cell.committed = cells.filterMap Cell.committed := by
  cases a with
  | query answer => rfl
  | update hits f answer =>
    refine map_committed fun c => ?_
    unfold Cell.write
    split
    · split_ifs <;> rfl
    · rfl
  | insert row clashes done dup =>
    simp only [Action.apply]
    split_ifs
    · rfl
    · simp
  | commit => exact absurd rfl not
  | rollback => exact map_committed fun c => c.rollback_committed s

theorem resume_committed (w : World S R I O) (s : S) (todo : List I) (log : List O) :
    (w.resume s todo log).committed = w.committed := by
  simp only [World.committed, World.resume]
  split_ifs
  · exact map_committed fun c => c.rollback_committed s
  · rfl

end Locks

end ArcReel.Lib.SqlSession
