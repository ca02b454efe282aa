import ArcReel.Lib.Run
import Mathlib.Data.List.Range
import Mathlib.Data.List.Perm.Basic

/-! `refreshProject` of `stores/projects-store.ts`: one request in flight, one place behind it, and
the store that the answers are written to while the user moves between projects. -/

namespace ArcReel.Refresh
open Lib

inductive RefreshProjectResult where
  | success
  | failed
  | cancelled
  deriving DecidableEq, Repr

/-- The variables of `runRefresh`. Rounds are numbered; `signal` is the cancellation scope that was
in force when the request was sent. -/
structure Round where
  number : Nat
  curName : String
  curKeys : List String
  curOnErrors : List Nat
  curResolvers : List Nat
  signal : Nat
  deriving DecidableEq, Repr

/-- `queuedName` and what is collected with it; they are set and cleared with `refreshQueued`. -/
structure Queue where
  queuedName : String
  queuedKeys : List String
  queuedOnErrors : List Nat
  queuedResolvers : List Nat
  deriving DecidableEq, Repr

/-- How a call was resolved, and by which round if by one. -/
structure Settlement where
  caller : Nat
  result : RefreshProjectResult
  round : Option Nat
  deriving DecidableEq, Repr

/-- An answer that was put in the store. -/
structure Write (Data : Type) where
  round : Nat
  name : String
  data : Data
  deriving DecidableEq, Repr

/-- A call of `refreshProject`, and how many rounds had begun before it. -/
structure Asked where
  name : String
  rounds : Nat
  deriving DecidableEq, Repr

/-- The store. The scope counts its rotations; `calls`, `rounds`, `settled` and `written` keep the
history, the caller of a call being its place in `calls`. -/
structure Store (Data : Type) where
  currentProjectName : Option String
  currentProjectData : Option Data
  hasLoadedAnyProject : Bool
  projectSnapshotRevisions : String → Nat
  projectScope : Nat
  running : Option Round
  queued : Option Queue
  invalidated : List String
  notified : List Nat
  calls : List Asked
  rounds : Nat
  settled : List Settlement
  written : List (Write Data)

variable {Data : Type}

def Store.start : Store Data :=
  ⟨none, none, false, fun _ => 0, 0, none, none, [], [], [], 0, [], []⟩

/-- `toLowerCase` takes no other letter to one of these. -/
def isDemoProject (name : String) : Bool :=
  name.toList.map Char.toLower = "onboarding_demo".toList

inductive Step (Data : Type) where
  | refresh (name : String) (invalidateKeys : List String) (onError : Bool)
  /-- The request in flight is answered, or fails. -/
  | answer (answer : Option Data)
  | setCurrentProject (name : Option String) (data : Option Data)

namespace Store

variable (s : Store Data)

def setCurrentProject (name : Option String) (data : Option Data) : Store Data :=
  { s with
    projectScope := if name = s.currentProjectName then s.projectScope else s.projectScope + 1
    currentProjectName := name
    currentProjectData := data
    projectSnapshotRevisions := fun other =>
      if name = some other ∧ data.isSome then s.projectSnapshotRevisions other + 1
      else s.projectSnapshotRevisions other
    hasLoadedAnyProject := s.hasLoadedAnyProject || name.isSome }

def resolve (callers : List Nat) (result : RefreshProjectResult) (round : Option Nat) : Store Data :=
  { s with settled := s.settled ++ callers.map fun caller => ⟨caller, result, round⟩ }

/-- A round begins: its request is sent under the scope in force. -/
def beginRound (name : String) (keys : List String) (onErrors resolvers : List Nat) : Store Data :=
  { s with
    running := some ⟨s.rounds, name, keys, onErrors, resolvers, s.projectScope⟩
    rounds := s.rounds + 1 }

/-- The request of `caller` for a round after the one in flight. -/
def enqueue (caller : Nat) (name : String) (keys : List String) (onErrors : List Nat) : Store Data :=
  match s.queued with
  | some queue =>
      if queue.queuedName = name then
        { s with queued := some ⟨name, queue.queuedKeys ++ keys, queue.queuedOnErrors ++ onErrors,
            queue.queuedResolvers ++ [caller]⟩ }
      -- the place is taken by the current project, and the call is for another one
      else if s.currentProjectName = some queue.queuedName then s.resolve [caller] .cancelled none
      else
        { s.resolve queue.queuedResolvers .cancelled none with
          queued := some ⟨name, keys, onErrors, [caller]⟩ }
  | none => { s with queued := some ⟨name, keys, onErrors, [caller]⟩ }

def refreshProject (name : String) (keys : List String) (onError : Bool) : Store Data :=
  let caller := s.calls.length
  let onErrors := if onError then [caller] else []
  let s : Store Data := { s with calls := s.calls ++ [⟨name, s.rounds⟩] }
  if name = "" then s.resolve [caller] .cancelled none
  else if isDemoProject name then s.resolve [caller] .success none
  else if s.running.isSome then s.enqueue caller name keys onErrors
  else s.beginRound name keys onErrors [caller]

/-- A queued request for another project comes first if its project is the current one, or if no
project is. -/
def supersededByOtherProject (curName : String) : Bool :=
  s.queued.any fun queue => queue.queuedName ≠ curName &&
    (s.currentProjectName.isNone || s.currentProjectName = some queue.queuedName)

def isCurrentProject (curName : String) : Bool :=
  s.currentProjectName = some curName || (s.currentProjectName.isNone && !s.hasLoadedAnyProject)

/-- The answer of the round in flight, and how its callers are resolved. -/
def takeAnswer (round : Round) : Option Data → Store Data × RefreshProjectResult
  | some data =>
      if !s.supersededByOtherProject round.curName && s.projectScope = round.signal &&
          s.isCurrentProject round.curName then
        ({ s.setCurrentProject (some round.curName) (some data) with
            invalidated := s.invalidated ++ round.curKeys
            written := s.written ++ [⟨round.number, round.curName, data⟩] }, .success)
      else (s, .cancelled)
  | none =>
      if s.projectScope = round.signal then
        ({ s with notified := s.notified ++ round.curOnErrors }, .failed)
      else (s, .cancelled)

/-- The rest of the loop: the queued round begins, or the loop ends. -/
def nextRound : Store Data :=
  match s.queued with
  | some queue =>
      { s with queued := none }.beginRound queue.queuedName queue.queuedKeys queue.queuedOnErrors
        queue.queuedResolvers
  | none => { s with running := none }

def endRound (round : Round) (answer : Option Data) : Store Data :=
  let taken := s.takeAnswer round answer
  (taken.1.resolve round.curResolvers taken.2 (some round.number)).nextRound

end Store

def step (s : Store Data) : Step Data → Option (Store Data)
  | .refresh name keys onError => some (s.refreshProject name keys onError)
  | .answer answer => s.running.map fun round => s.endRound round answer
  | .setCurrentProject name data => some (s.setCurrentProject name data)

/-! Where the callers are. -/

def Store.waiting (s : Store Data) : List Nat :=
  (s.running.map Round.curResolvers).getD [] ++ (s.queued.map Queue.queuedResolvers).getD []

/-- The caller asked for this project, when no more than so many rounds had begun. -/
def AskedBy (calls : List Asked) (name : String) (rounds caller : Nat) : Prop :=
  ∃ asked, calls[caller]? = some asked ∧ asked.name = name ∧ asked.rounds ≤ rounds

/-- A settlement by a round is by one that asked for the caller's project and began after the call,
and is a success if the answer of that round was written. Without a round a call is cancelled, or
was for the demo project. -/
def Served (calls : List Asked) (written : List (Write Data)) (settlement : Settlement) : Prop :=
  match settlement.round with
  | some number => ∃ name, AskedBy calls name number settlement.caller ∧
      (settlement.result = .success ↔ ∃ write ∈ written, write.round = number ∧ write.name = name)
  | none => settlement.result = .cancelled ∨
      ∃ asked, calls[settlement.caller]? = some asked ∧ isDemoProject asked.name

/-- What holds of the callers who do not wait for the round in flight. -/
structure Settled (s : Store Data) : Prop where
  next : ∀ queue, s.queued = some queue →
    ∀ caller ∈ queue.queuedResolvers, AskedBy s.calls queue.queuedName s.rounds caller
  begun : ∀ write ∈ s.written, write.round < s.rounds
  numbered : ∀ settlement ∈ s.settled, ∀ number, settlement.round = some number → number < s.rounds
  served : ∀ settlement ∈ s.settled, Served s.calls s.written settlement

/-- The round is under way: nothing was written or settled by it yet. -/
structure UnderWay (s : Store Data) (round : Round) : Prop where
  number : round.number < s.rounds
  unwritten : ∀ write ∈ s.written, write.round ≠ round.number
  unsettled : ∀ settlement ∈ s.settled, settlement.round ≠ some round.number
  asked : ∀ caller ∈ round.curResolvers, AskedBy s.calls round.curName round.number caller

structure Accounted (s : Store Data) : Prop extends Settled s where
  once : (s.waiting ++ s.settled.map Settlement.caller).Perm (List.range s.calls.length)
  idle : s.running = none → s.queued = none
  underWay : ∀ round, s.running = some round → UnderWay s round

theorem AskedBy.later {calls : List Asked} {name : String} {rounds rounds' caller : Nat}
    (asked : AskedBy calls name rounds caller) (order : rounds ≤ rounds') (more : List Asked) :
    AskedBy (calls ++ more) name rounds' caller := by
  obtain ⟨entry, found, named, before⟩ := asked
  refine ⟨entry, ?_, named, before.trans order⟩
  rw [List.getElem?_append_left (List.getElem?_eq_some_iff.mp found).1, found]

theorem Served.later {calls : List Asked} {written : List (Write Data)} {settlement : Settlement}
    (served : Served calls written settlement) (more : List Asked) :
    Served (calls ++ more) written settlement := by
  unfold Served at served ⊢
  split at served
  next number by_ =>
    obtain ⟨name, asked, success⟩ := served
    exact ⟨name, asked.later le_rfl more, success⟩
  next alone =>
    refine served.imp_right fun demo => ?_
    obtain ⟨asked, found, special⟩ := demo
    refine ⟨asked, ?_, special⟩
    rw [List.getElem?_append_left (List.getElem?_eq_some_iff.mp found).1, found]

/-- A write of another round does not change whether the settlement is a success. -/
theorem Served.write {calls : List Asked} {written : List (Write Data)} {settlement : Settlement}
    (served : Served calls written settlement) {write : Write Data}
    (other : settlement.round ≠ some write.round) :
    Served calls (written ++ [write]) settlement := by
  unfold Served at served ⊢
  split at served
  next number by_ =>
    obtain ⟨name, asked, success⟩ := served
    refine ⟨name, asked, success.trans ⟨fun found => ?_, fun found => ?_⟩⟩
    · obtain ⟨old, member, same⟩ := found
      exact ⟨old, List.mem_append_left _ member, same⟩
    · obtain ⟨old, member, number', named⟩ := found
      cases List.mem_append.mp member with
      | inl before => exact ⟨old, before, number', named⟩
      | inr new =>
        rw [List.mem_singleton.mp new] at number'
        exact (other (by_.trans (congrArg some number'.symm))).elim
  next alone => exact served

section Refresh

variable {s : Store Data} {name : String}

theorem asked_new (calls : List Asked) (name : String) (rounds : Nat) :
    AskedBy (calls ++ [⟨name, rounds⟩]) name rounds calls.length :=
  ⟨⟨name, rounds⟩, List.getElem?_concat_length, rfl, le_rfl⟩

/-- The store after one more call was noted. -/
def Store.noted (s : Store Data) (name : String) : Store Data :=
  { s with calls := s.calls ++ [⟨name, s.rounds⟩] }

theorem Settled.noted (settled : Settled s) (name : String) : Settled (s.noted name) where
  next queue found caller member := (settled.next queue found caller member).later le_rfl _
  begun := settled.begun
  numbered := settled.numbered
  served settlement member := (settled.served settlement member).later _

theorem UnderWay.noted {round : Round} (underWay : UnderWay s round) (name : String) :
    UnderWay (s.noted name) round where
  number := underWay.number
  unwritten := underWay.unwritten
  unsettled := underWay.unsettled
  asked caller member := (underWay.asked caller member).later le_rfl _

theorem mem_resolve {callers : List Nat} {result : RefreshProjectResult} {round : Option Nat}
    {settlement : Settlement} :
    settlement ∈ (s.resolve callers result round).settled ↔
      settlement ∈ s.settled ∨ ∃ caller ∈ callers, settlement = ⟨caller, result, round⟩ := by
  simp [Store.resolve, eq_comm]

theorem Settled.resolve (settled : Settled s) {callers : List Nat} {result : RefreshProjectResult}
    (fine : ∀ caller ∈ callers, Served s.calls s.written ⟨caller, result, none⟩) :
    Settled (s.resolve callers result none) where
  next := settled.next
  begun := settled.begun
  numbered settlement member number by_ := by
    cases mem_resolve.mp member with
    | inl old => exact settled.numbered settlement old number by_
    | inr new =>
      obtain ⟨caller, -, rfl⟩ := new
      cases by_
  served settlement member := by
    cases mem_resolve.mp member with
    | inl old => exact settled.served settlement old
    | inr new =>
      obtain ⟨caller, waited, rfl⟩ := new
      exact fine caller waited

theorem UnderWay.resolve {round : Round} (underWay : UnderWay s round) (callers : List Nat)
    (result : RefreshProjectResult) : UnderWay (s.resolve callers result none) round where
  number := underWay.number
  unwritten := underWay.unwritten
  unsettled settlement member := by
    cases mem_resolve.mp member with
    | inl old => exact underWay.unsettled settlement old
    | inr new =>
      obtain ⟨caller, -, rfl⟩ := new
      exact (Option.some_ne_none _).symm
  asked := underWay.asked

/-- The new caller is the only one that is added. -/
theorem once_noted (name : String) (once : (s.waiting ++ s.settled.map Settlement.caller).Perm
      (List.range s.calls.length)) {t : Store Data} (calls : t.calls = (s.noted name).calls)
    (added : ∀ caller, (t.waiting ++ t.settled.map Settlement.caller).count caller =
      (s.waiting ++ s.settled.map Settlement.caller).count caller + [s.calls.length].count caller) :
    (t.waiting ++ t.settled.map Settlement.caller).Perm (List.range t.calls.length) := by
  have grown : t.calls.length = s.calls.length + 1 := by
    rw [calls, Store.noted, List.length_append, List.length_singleton]
  rw [grown, List.range_succ]
  refine List.perm_iff_count.mpr fun caller => ?_
  rw [added, once.count_eq, List.count_append]

/-- A call that is resolved at once. -/
theorem Accounted.atOnce (accounted : Accounted s) {result : RefreshProjectResult}
    (fine : Served (s.noted name).calls s.written ⟨s.calls.length, result, none⟩) :
    Accounted ((s.noted name).resolve [s.calls.length] result none) where
  toSettled := (accounted.toSettled.noted name).resolve fun caller member => by
    rw [List.mem_singleton.mp member]
    exact fine
  once := by
    refine once_noted name accounted.once rfl fun caller => ?_
    simp only [Store.resolve, Store.noted, Store.waiting, List.map_append, List.map_cons,
      List.map_nil, List.count_append]
    omega
  idle := accounted.idle
  underWay round found := ((accounted.underWay round found).noted name).resolve _ result

theorem Accounted.enqueue (accounted : Accounted s) (name : String) (keys : List String)
    (onErrors : List Nat) (busy : s.running.isSome) :
    Accounted ((s.noted name).enqueue s.calls.length name keys onErrors) := by
  have noted := accounted.toSettled.noted name
  have new : AskedBy (s.noted name).calls name s.rounds s.calls.length :=
    asked_new s.calls name s.rounds
  have inFlight : (s.noted name).running ≠ none := Option.isSome_iff_ne_none.mp busy
  unfold Store.enqueue
  cases waits : (s.noted name).queued with
  | none =>
    have free : s.queued = none := waits
    dsimp only
    exact {
      next := fun queue found caller member => by
        cases found
        rw [List.mem_singleton.mp member]
        exact new
      begun := noted.begun
      numbered := noted.numbered
      served := noted.served
      once := by
        refine once_noted name accounted.once rfl fun caller => ?_
        simp only [Store.waiting, Store.noted, free, Option.map_none, Option.map_some,
          Option.getD_none, Option.getD_some, List.count_append, List.count_nil]
        omega
      idle := fun stopped => (inFlight stopped).elim
      underWay := fun round found =>
        have noted := (accounted.underWay round found).noted name
        ⟨noted.number, noted.unwritten, noted.unsettled, noted.asked⟩ }
  | some queue =>
    have taken : s.queued = some queue := waits
    dsimp only
    split
    next same =>
      exact {
        next := fun queue' found caller member => by
          cases found
          cases List.mem_append.mp member with
          | inl before => exact same ▸ noted.next queue waits caller before
          | inr last =>
            rw [List.mem_singleton.mp last]
            exact new
        begun := noted.begun
        numbered := noted.numbered
        served := noted.served
        once := by
          refine once_noted name accounted.once rfl fun caller => ?_
          simp only [Store.waiting, Store.noted, taken, Option.map_some, Option.getD_some,
            List.count_append]
          omega
        idle := fun stopped => (inFlight stopped).elim
        underWay := fun round found =>
          have noted := (accounted.underWay round found).noted name
          ⟨noted.number, noted.unwritten, noted.unsettled, noted.asked⟩ }
    next different =>
      split
      next kept => exact accounted.atOnce (Or.inl rfl)
      next displaced =>
        have resolved : Settled ((s.noted name).resolve queue.queuedResolvers .cancelled none) :=
          noted.resolve fun _ _ => Or.inl rfl
        exact {
          next := fun queue' found caller member => by
            cases found
            rw [List.mem_singleton.mp member]
            exact new
          begun := resolved.begun
          numbered := resolved.numbered
          served := resolved.served
          once := by
            refine once_noted name accounted.once rfl fun caller => ?_
            simp only [Store.waiting, Store.noted, Store.resolve, taken, Option.map_some,
              Option.getD_some, List.map_append, List.map_map, List.count_append]
            simp only [Function.comp_def, List.map_id']
            omega
          idle := fun stopped => (inFlight stopped).elim
          underWay := fun round found =>
            have resolved := ((accounted.underWay round found).noted name).resolve
              queue.queuedResolvers .cancelled
            ⟨resolved.number, resolved.unwritten, resolved.unsettled, resolved.asked⟩ }

theorem Accounted.refresh (accounted : Accounted s) (name : String) (keys : List String)
    (onError : Bool) : Accounted (s.refreshProject name keys onError) := by
  change Accounted (if name = "" then (s.noted name).resolve [s.calls.length] .cancelled none
    else if isDemoProject name then (s.noted name).resolve [s.calls.length] .success none
    else if s.running.isSome then (s.noted name).enqueue s.calls.length name keys _
    else (s.noted name).beginRound name keys _ [s.calls.length])
  split
  next nameless => exact accounted.atOnce (Or.inl rfl)
  split
  next demo =>
    exact accounted.atOnce (Or.inr ⟨⟨name, s.rounds⟩, List.getElem?_concat_length, demo⟩)
  split
  next busy => exact accounted.enqueue name keys _ busy
  next free =>
    have stopped : s.running = none := Option.not_isSome_iff_eq_none.mp free
    have noQueue : s.queued = none := accounted.idle stopped
    have noted := accounted.toSettled.noted name
    exact {
      next := fun queue found => by
        have queued : s.queued = some queue := found
        rw [noQueue] at queued
        cases queued
      begun := fun write member => Nat.lt_succ_of_lt (noted.begun write member)
      numbered := fun settlement member number by_ =>
        Nat.lt_succ_of_lt (noted.numbered settlement member number by_)
      served := noted.served
      once := by
        refine once_noted name accounted.once rfl fun caller => ?_
        simp only [Store.waiting, Store.noted, Store.beginRound, stopped, noQueue, Option.map_none,
          Option.map_some, Option.getD_none, Option.getD_some, List.count_append, List.count_nil]
        omega
      idle := fun none_ => by cases none_
      underWay := fun round found => by
        cases found
        exact {
          number := Nat.lt_succ_self _
          unwritten := fun write member => Nat.ne_of_lt (noted.begun write member)
          unsettled := fun settlement member same =>
            Nat.lt_irrefl _ (noted.numbered settlement member _ same)
          asked := fun caller member => by
            rw [List.mem_singleton.mp member]
            exact asked_new s.calls name s.rounds } }

end Refresh

section EndRound

variable {s : Store Data} {round : Round}

/-- The store with the answer of the round in it. -/
def Store.write (s : Store Data) (round : Round) (data : Data) : Store Data :=
  { s.setCurrentProject (some round.curName) (some data) with
    invalidated := s.invalidated ++ round.curKeys
    written := s.written ++ [⟨round.number, round.curName, data⟩] }

/-- The answer may be written: no other project comes first, the project was not switched since the
request was sent, and it is the current one. -/
def Store.Admits (s : Store Data) (round : Round) : Prop :=
  s.supersededByOtherProject round.curName = false ∧ s.projectScope = round.signal ∧
    s.isCurrentProject round.curName = true

/-- The answer is written, or the store keeps its data and the round is no success; it is cancelled
only if its answer may not be written. -/
theorem takeAnswer_cases (s : Store Data) (round : Round) (answer : Option Data) :
    (∃ data, s.Admits round ∧ s.takeAnswer round answer = (s.write round data, .success)) ∨
      ∃ notified result, s.takeAnswer round answer = ({ s with notified }, result) ∧
        result ≠ .success ∧ (result = .cancelled → ¬s.Admits round) := by
  cases answer with
  | some data =>
    unfold Store.takeAnswer
    dsimp only
    split
    next free =>
      simp only [Bool.and_eq_true, Bool.not_eq_true', decide_eq_true_eq] at free
      exact Or.inl ⟨data, ⟨free.1.1, free.1.2, free.2⟩, rfl⟩
    next held =>
      refine Or.inr ⟨s.notified, .cancelled, rfl, RefreshProjectResult.noConfusion, fun _ admits => ?_⟩
      refine held ?_
      simp only [Bool.and_eq_true, Bool.not_eq_true', decide_eq_true_eq]
      exact ⟨⟨admits.1, admits.2.1⟩, admits.2.2⟩
  | none =>
    unfold Store.takeAnswer
    dsimp only
    split
    next same =>
      exact Or.inr ⟨_, .failed, rfl, RefreshProjectResult.noConfusion,
        RefreshProjectResult.noConfusion⟩
    next switched =>
      exact Or.inr ⟨s.notified, .cancelled, rfl, RefreshProjectResult.noConfusion,
        fun _ admits => switched admits.2.1⟩

/-- The callers of the round in flight are settled by it. -/
theorem Settled.endRound (settled : Settled s) (underWay : UnderWay s round) (answer : Option Data) :
    Settled ((s.takeAnswer round answer).1.resolve round.curResolvers (s.takeAnswer round answer).2
      (some round.number)) := by
  have numbered : ∀ callers result, ∀ settlement ∈ (s.resolve callers result (some round.number)).settled,
      ∀ number, settlement.round = some number → number < s.rounds := by
    intro callers result settlement member number by_
    cases mem_resolve.mp member with
    | inl old => exact settled.numbered settlement old number by_
    | inr new =>
      obtain ⟨caller, -, rfl⟩ := new
      cases by_
      exact underWay.number
  cases takeAnswer_cases s round answer with
  | inl writes =>
    obtain ⟨data, -, taken⟩ := writes
    rw [taken]
    have own : (⟨round.number, round.curName, data⟩ : Write Data) ∈ (s.write round data).written :=
      List.mem_append_right _ (List.mem_singleton.mpr rfl)
    exact {
      next := settled.next
      begun := fun write member => by
        cases List.mem_append.mp member with
        | inl old => exact settled.begun write old
        | inr new =>
          rw [List.mem_singleton.mp new]
          exact underWay.number
      numbered := numbered _ _
      served := fun settlement member => by
        cases mem_resolve.mp member with
        | inl old => exact (settled.served settlement old).write (underWay.unsettled settlement old)
        | inr new =>
          obtain ⟨caller, waited, rfl⟩ := new
          exact ⟨round.curName, underWay.asked caller waited,
            fun _ => ⟨_, own, rfl, rfl⟩, fun _ => rfl⟩ }
  | inr keeps =>
    obtain ⟨notified, result, taken, failure, -⟩ := keeps
    rw [taken]
    exact {
      next := settled.next
      begun := settled.begun
      numbered := numbered _ _
      served := fun settlement member => by
        cases mem_resolve.mp member with
        | inl old => exact settled.served settlement old
        | inr new =>
          obtain ⟨caller, waited, rfl⟩ := new
          refine ⟨round.curName, underWay.asked caller waited,
            fun same => (failure same).elim, fun found => ?_⟩
          obtain ⟨write, member, number, -⟩ := found
          exact (underWay.unwritten write member number).elim }

/-- A store between two rounds, whose only waiting callers are the queued ones. -/
theorem Settled.nextRound (settled : Settled s)
    (once : ((s.queued.map Queue.queuedResolvers).getD [] ++ s.settled.map Settlement.caller).Perm
      (List.range s.calls.length)) : Accounted s.nextRound := by
  unfold Store.nextRound
  split
  next queue found =>
    rw [found] at once
    exact {
      next := fun queue none_ => by cases none_
      begun := fun write member => Nat.lt_succ_of_lt (settled.begun write member)
      numbered := fun settlement member number by_ =>
        Nat.lt_succ_of_lt (settled.numbered settlement member number by_)
      served := settled.served
      once := by
        rw [Store.waiting, Store.beginRound]
        simpa using once
      idle := fun none_ => by cases none_
      underWay := fun round started => by
        cases started
        exact {
          number := Nat.lt_succ_self _
          unwritten := fun write member => Nat.ne_of_lt (settled.begun write member)
          unsettled := fun settlement member same =>
            Nat.lt_irrefl _ (settled.numbered settlement member _ same)
          asked := settled.next queue found } }
  next none_ =>
    rw [none_] at once
    exact {
      next := fun queue found => by
        rw [show s.queued = some queue from found] at none_
        cases none_
      begun := settled.begun
      numbered := settled.numbered
      served := settled.served
      once := by
        rw [Store.waiting, none_]
        simpa using once
      idle := fun _ => none_
      underWay := fun round started => by cases started }

theorem takeAnswer_frame (s : Store Data) (round : Round) (answer : Option Data) :
    (s.takeAnswer round answer).1.queued = s.queued ∧
      (s.takeAnswer round answer).1.settled = s.settled ∧
      (s.takeAnswer round answer).1.calls = s.calls := by
  cases takeAnswer_cases s round answer with
  | inl writes =>
    obtain ⟨data, -, taken⟩ := writes
    rw [taken]
    exact ⟨rfl, rfl, rfl⟩
  | inr keeps =>
    obtain ⟨notified, result, taken, -⟩ := keeps
    rw [taken]
    exact ⟨rfl, rfl, rfl⟩

theorem Accounted.endRound (accounted : Accounted s) (inFlight : s.running = some round)
    (answer : Option Data) : Accounted (s.endRound round answer) := by
  obtain ⟨queued, settled, calls⟩ := takeAnswer_frame s round answer
  refine Settled.nextRound (accounted.toSettled.endRound (accounted.underWay round inFlight) answer) ?_
  rw [Store.resolve]
  dsimp only
  rw [queued, settled, calls]
  refine .trans (List.perm_iff_count.mpr fun caller => ?_) accounted.once
  simp only [Store.waiting, inFlight, Option.map_some, Option.getD_some, List.map_append,
    List.map_map, List.count_append]
  simp only [Function.comp_def, List.map_id']
  omega

end EndRound

theorem accounted_start : Accounted (Store.start : Store Data) where
  next queue found := by cases found
  begun write member := (List.not_mem_nil member).elim
  numbered settlement member := (List.not_mem_nil member).elim
  served settlement member := (List.not_mem_nil member).elim
  once := .refl _
  idle _ := rfl
  underWay round found := by cases found

theorem accounted_step (s : Store Data) (next : Step Data) (t : Store Data)
    (accounted : Accounted s) (stepped : step s next = some t) : Accounted t := by
  cases next with
  | refresh name keys onError =>
    rw [← Option.some.inj stepped]
    exact accounted.refresh name keys onError
  | answer answer =>
    obtain ⟨round, inFlight, rfl⟩ := Option.map_eq_some_iff.mp stepped
    exact accounted.endRound inFlight answer
  | setCurrentProject name data =>
    rw [← Option.some.inj stepped]
    exact {
      next := accounted.next
      begun := accounted.begun
      numbered := accounted.numbered
      served := accounted.served
      once := accounted.once
      idle := accounted.idle
      underWay := fun round found =>
        have underWay := accounted.underWay round found
        ⟨underWay.number, underWay.unwritten, underWay.unsettled, underWay.asked⟩ }

section Current

variable {name : String} {caller : Nat}

/-- The call is resolved, in flight or queued, with so many answers to come, and nothing can take
its place. -/
def Ahead (name : String) (caller : Nat) (s : Store Data) : Nat → Prop
  | 0 => ∃ settlement ∈ s.settled, settlement.caller = caller ∧ settlement.result ≠ .cancelled
  | 1 => ∃ round, s.running = some round ∧ round.curName = name ∧ caller ∈ round.curResolvers ∧
      round.signal = s.projectScope
  | 2 => s.running.isSome ∧ ∃ queue, s.queued = some queue ∧ queue.queuedName = name ∧
      caller ∈ queue.queuedResolvers
  | _ => False

def Step.isAnswer : Step Data → Bool
  | .answer _ => true
  | _ => false

/-- The step does not move the user to another project. -/
def Step.Stays (name : String) : Step Data → Prop
  | .setCurrentProject other _ => other = some name
  | _ => True

theorem admits_current {s : Store Data} {round : Round} (current : s.currentProjectName = some name)
    (named : round.curName = name) (signal : round.signal = s.projectScope) : s.Admits round := by
  refine ⟨?_, signal.symm, ?_⟩
  · unfold Store.supersededByOtherProject
    cases s.queued with
    | none => rfl
    | some queue =>
      rw [Option.any_some, current, named]
      by_cases same : queue.queuedName = name
      · simp [same]
      · simp [same, Ne.symm same]
  · simp [Store.isCurrentProject, current, named]

/-- Taking an answer leaves the user on the project, in the same scope. -/
theorem takeAnswer_current {s : Store Data} (current : s.currentProjectName = some name)
    (round : Round) (answer : Option Data) :
    (s.takeAnswer round answer).1.currentProjectName = some name ∧
      (s.takeAnswer round answer).1.projectScope = s.projectScope := by
  cases takeAnswer_cases s round answer with
  | inl writes =>
    obtain ⟨data, admits, taken⟩ := writes
    have own : round.curName = name := by
      have is_ := admits.2.2
      simp only [Store.isCurrentProject, current, Option.some.injEq, Option.isNone_some,
        Bool.false_and, Bool.or_false, decide_eq_true_eq] at is_
      exact is_.symm
    rw [taken]
    refine ⟨congrArg some own, ?_⟩
    have same : some round.curName = s.currentProjectName := by rw [current, own]
    exact if_pos same
  | inr keeps =>
    obtain ⟨notified, result, taken, -⟩ := keeps
    rw [taken]
    exact ⟨current, rfl⟩

/-- A call neither moves the user, nor ends the round in flight, nor takes a settlement back. -/
theorem refresh_frame (s : Store Data) (other : String) (keys : List String) (onError : Bool) :
    (s.refreshProject other keys onError).currentProjectName = s.currentProjectName ∧
      (s.refreshProject other keys onError).projectScope = s.projectScope ∧
      (∃ more, (s.refreshProject other keys onError).settled = s.settled ++ more) ∧
      ∀ round, s.running = some round →
        (s.refreshProject other keys onError).running = some round := by
  unfold Store.refreshProject
  dsimp only
  split
  next nameless => exact ⟨rfl, rfl, ⟨_, rfl⟩, fun _ inFlight => inFlight⟩
  split
  next demo => exact ⟨rfl, rfl, ⟨_, rfl⟩, fun _ inFlight => inFlight⟩
  split
  next busy =>
    unfold Store.enqueue
    dsimp only
    split
    next queue taken =>
      split
      next same => exact ⟨rfl, rfl, ⟨[], (List.append_nil _).symm⟩, fun _ inFlight => inFlight⟩
      split
      next kept => exact ⟨rfl, rfl, ⟨_, rfl⟩, fun _ inFlight => inFlight⟩
      next displaced => exact ⟨rfl, rfl, ⟨_, rfl⟩, fun _ inFlight => inFlight⟩
    next free => exact ⟨rfl, rfl, ⟨[], (List.append_nil _).symm⟩, fun _ inFlight => inFlight⟩
  next idle =>
    refine ⟨rfl, rfl, ⟨[], (List.append_nil _).symm⟩, fun round inFlight => ?_⟩
    rw [inFlight] at idle
    exact (idle rfl).elim

/-- The place behind the round in flight stays with the current project. -/
theorem refresh_queue {s : Store Data} {queue : Queue} (busy : s.running.isSome)
    (taken : s.queued = some queue) (current : s.currentProjectName = some queue.queuedName)
    (other : String) (keys : List String) (onError : Bool) :
    ∃ queue', (s.refreshProject other keys onError).queued = some queue' ∧
      queue'.queuedName = queue.queuedName ∧
      ∀ caller ∈ queue.queuedResolvers, caller ∈ queue'.queuedResolvers := by
  unfold Store.refreshProject
  dsimp only
  split
  next nameless => exact ⟨queue, taken, rfl, fun _ member => member⟩
  split
  next demo => exact ⟨queue, taken, rfl, fun _ member => member⟩
  unfold Store.enqueue
  dsimp only
  rw [taken]
  dsimp only
  split
  next same => exact ⟨_, rfl, same.symm, fun _ member => List.mem_append_left _ member⟩
  next different => exact ⟨queue, rfl, rfl, fun _ member => member⟩

theorem nextRound_frame (s : Store Data) :
    s.nextRound.currentProjectName = s.currentProjectName ∧
      s.nextRound.projectScope = s.projectScope ∧ s.nextRound.settled = s.settled := by
  unfold Store.nextRound
  split
  next => exact ⟨rfl, rfl, rfl⟩
  next => exact ⟨rfl, rfl, rfl⟩

theorem ahead_refresh {s : Store Data} {left : Nat} (current : s.currentProjectName = some name)
    (ahead : Ahead name caller s left) (other : String) (keys : List String) (onError : Bool) :
    Ahead name caller (s.refreshProject other keys onError) left := by
  obtain ⟨-, scope, ⟨more, grown⟩, kept⟩ := refresh_frame s other keys onError
  match left, ahead with
  | 0, ⟨settlement, member, own⟩ =>
    exact ⟨settlement, grown ▸ List.mem_append_left _ member, own⟩
  | 1, ⟨round, inFlight, named, waits, signal⟩ =>
    exact ⟨round, kept round inFlight, named, waits, signal.trans scope.symm⟩
  | 2, ⟨busy, queue, taken, named, waits⟩ =>
    obtain ⟨queue', taken', named', waits'⟩ :=
      refresh_queue busy taken (named ▸ current) other keys onError
    obtain ⟨round, inFlight⟩ := Option.isSome_iff_exists.mp busy
    exact ⟨by rw [kept round inFlight]; rfl, queue', taken', named'.trans named, waits' _ waits⟩

theorem ahead_answer {s : Store Data} {left : Nat} {round : Round}
    (current : s.currentProjectName = some name) (ahead : Ahead name caller s left)
    (inFlight : s.running = some round) (answer : Option Data) :
    ∃ left' ≤ left - 1, Ahead name caller (s.endRound round answer) left' := by
  obtain ⟨queued, settled, -⟩ := takeAnswer_frame s round answer
  have grown : (s.endRound round answer).settled = s.settled ++ round.curResolvers.map
      fun caller => ⟨caller, (s.takeAnswer round answer).2, some round.number⟩ := by
    rw [Store.endRound, (nextRound_frame _).2.2, Store.resolve, settled]
  match left, ahead with
  | 0, ⟨settlement, member, own⟩ =>
    exact ⟨0, le_rfl, settlement, grown ▸ List.mem_append_left _ member, own⟩
  | 1, ⟨round', inFlight', named, waits, signal⟩ =>
    obtain rfl : round' = round := Option.some.inj (inFlight'.symm.trans inFlight)
    refine ⟨0, le_rfl, ⟨caller, (s.takeAnswer round' answer).2, some round'.number⟩,
      grown ▸ List.mem_append_right _ (List.mem_map_of_mem waits), rfl, ?_⟩
    cases takeAnswer_cases s round' answer with
    | inl writes =>
      obtain ⟨data, -, taken⟩ := writes
      rw [taken]
      exact RefreshProjectResult.noConfusion
    | inr keeps =>
      obtain ⟨notified, result, taken, -, cancelled⟩ := keeps
      rw [taken]
      exact fun same => cancelled same (admits_current current named signal)
  | 2, ⟨busy, queue, taken, named, waits⟩ =>
    have next : ((s.takeAnswer round answer).1.resolve round.curResolvers
        (s.takeAnswer round answer).2 (some round.number)).queued = some queue := queued.trans taken
    refine ⟨1, le_rfl, ?_⟩
    unfold Store.endRound Store.nextRound
    dsimp only
    rw [next]
    exact ⟨_, rfl, named, waits, rfl⟩

/-- A call that nothing can displace stays so, and every answer brings it nearer. -/
theorem ahead_step {s t : Store Data} {next : Step Data} {left : Nat}
    (current : s.currentProjectName = some name) (ahead : Ahead name caller s left)
    (stays : next.Stays name) (stepped : step s next = some t) :
    t.currentProjectName = some name ∧
      ∃ left' ≤ left - (if next.isAnswer then 1 else 0), Ahead name caller t left' := by
  cases next with
  | refresh other keys onError =>
    rw [← Option.some.inj stepped]
    exact ⟨(refresh_frame s other keys onError).1.trans current, left, le_rfl,
      ahead_refresh current ahead other keys onError⟩
  | answer answer =>
    obtain ⟨round, inFlight, rfl⟩ := Option.map_eq_some_iff.mp stepped
    refine ⟨?_, ahead_answer current ahead inFlight answer⟩
    rw [Store.endRound, (nextRound_frame _).1]
    exact (takeAnswer_current current round answer).1
  | setCurrentProject other data =>
    rw [← Option.some.inj stepped]
    have same : other = s.currentProjectName := Eq.trans stays current.symm
    have scope : (s.setCurrentProject other data).projectScope = s.projectScope := if_pos same
    refine ⟨stays, left, le_rfl, ?_⟩
    match left, ahead with
    | 0, found => exact found
    | 1, ⟨round, inFlight, named, waits, signal⟩ =>
      exact ⟨round, inFlight, named, waits, signal.trans scope.symm⟩
    | 2, found => exact found

theorem ahead_run {later : List (Step Data)} {s t : Store Data} {left : Nat}
    (current : s.currentProjectName = some name) (ahead : Ahead name caller s left)
    (stays : ∀ next ∈ later, next.Stays name) (ran : runSteps step later s = some t) :
    ∃ left' ≤ left - later.countP Step.isAnswer, Ahead name caller t left' := by
  induction later generalizing s left with
  | nil =>
    rw [← Option.some.inj ran]
    exact ⟨left, le_rfl, ahead⟩
  | cons next later ih =>
    obtain ⟨between, stepped, rest⟩ := runSteps_cons.mp ran
    obtain ⟨current', left', less, ahead'⟩ :=
      ahead_step current ahead (stays next (List.mem_cons_self ..)) stepped
    obtain ⟨left'', less', found⟩ :=
      ih current' ahead' (fun step member => stays step (List.mem_cons_of_mem _ member)) rest
    refine ⟨left'', ?_, found⟩
    rw [List.countP_cons]
    omega

theorem ahead_asked {s : Store Data} (current : s.currentProjectName = some name)
    (named : name ≠ "") (real : isDemoProject name = false) (keys : List String) (onError : Bool) :
    ∃ left ≤ 2, Ahead name s.calls.length (s.refreshProject name keys onError) left := by
  unfold Store.refreshProject
  dsimp only
  rw [if_neg named, if_neg (Bool.eq_false_iff.mp real)]
  split
  next busy =>
    refine ⟨2, le_rfl, ?_⟩
    unfold Store.enqueue
    dsimp only
    split
    next queue taken =>
      split
      next same =>
        exact ⟨busy, _, rfl, rfl, List.mem_append_right _ (List.mem_singleton.mpr rfl)⟩
      next different =>
        rw [if_neg]
        · exact ⟨busy, _, rfl, rfl, List.mem_singleton.mpr rfl⟩
        · intro same
          rw [current] at same
          exact different (Option.some.inj same).symm
    next free => exact ⟨busy, _, rfl, rfl, List.mem_singleton.mpr rfl⟩
  next idle => exact ⟨1, by decide, _, rfl, rfl, List.mem_singleton.mpr rfl, rfl⟩

/-- A call that is ahead has no settlement that cancels it. -/
theorem Accounted.not_cancelled {s : Store Data} {left : Nat} (accounted : Accounted s)
    (ahead : Ahead name caller s left) :
    ∀ settlement ∈ s.settled, settlement.caller = caller → settlement.result ≠ .cancelled := by
  have distinct := accounted.once.nodup_iff.mpr List.nodup_range
  have apart := List.nodup_append.mp distinct
  have waits : ∀ settlement ∈ s.settled, settlement.caller = caller → caller ∉ s.waiting :=
    fun settlement member same waiting =>
      apart.2.2 caller waiting caller (List.mem_map.mpr ⟨settlement, member, same⟩) rfl
  intro settlement member same
  match left, ahead with
  | 0, ⟨other, found, own, fine⟩ =>
    rw [List.inj_on_of_nodup_map apart.2.1 member found (same.trans own.symm)]
    exact fine
  | 1, ⟨round, inFlight, _, waiting, _⟩ =>
    refine (waits settlement member same ?_).elim
    rw [Store.waiting, inFlight]
    exact List.mem_append_left _ waiting
  | 2, ⟨_, queue, taken, _, waiting⟩ =>
    refine (waits settlement member same ?_).elim
    rw [Store.waiting, taken]
    exact List.mem_append_right _ waiting

/-- While the user stays on a project, a refresh of it is never cancelled, whatever else is asked
for, and two answers settle it. -/
theorem current_refresh_served {before later : List (Step Data)} {s t u : Store Data}
    {keys : List String} {onError : Bool} (ran : runSteps step before .start = some s)
    (current : s.currentProjectName = some name) (named : name ≠ "")
    (real : isDemoProject name = false) (asked : step s (.refresh name keys onError) = some t)
    (stays : ∀ next ∈ later, next.Stays name) (rest : runSteps step later t = some u) :
    (∀ settlement ∈ u.settled, settlement.caller = s.calls.length →
        settlement.result ≠ .cancelled) ∧
      (2 ≤ later.countP Step.isAnswer →
        ∃ settlement ∈ u.settled, settlement.caller = s.calls.length) := by
  have accounted := runSteps_induct accounted_step
    (accounted_step s _ t (runSteps_induct accounted_step accounted_start ran) asked) rest
  rw [← Option.some.inj asked] at rest
  have current' := (refresh_frame s name keys onError).1.trans current
  obtain ⟨left, few, ahead⟩ := ahead_asked current named real keys onError
  obtain ⟨left', less, ahead'⟩ := ahead_run current' ahead stays rest
  refine ⟨accounted.not_cancelled ahead', fun answers => ?_⟩
  obtain rfl : left' = 0 := by omega
  obtain ⟨settlement, member, own, -⟩ := ahead'
  exact ⟨settlement, member, own⟩

end Current

/-- The page of the current project is served after a page of another project asked twice. -/
theorem current_refresh_served_behind : ∃ s t u : Store Nat,
    runSteps step [.setCurrentProject (some "p") none, .refresh "q" [] true] .start = some s ∧
      step s (.refresh "p" [] false) = some t ∧
      runSteps step [.refresh "q" [] true, .answer none, .answer (some 7)] t = some u ∧
      ∃ settlement ∈ u.settled, settlement.caller = 1 ∧ settlement.result ≠ .cancelled := by
  refine ⟨_, _, _, rfl, rfl, rfl, ?_⟩
  have served := @current_refresh_served Nat "p" [.setCurrentProject (some "p") none,
    .refresh "q" [] true] [.refresh "q" [] true, .answer none, .answer (some 7)] _ _ _ [] false rfl rfl
    (by decide) (by decide) rfl (by simp [Step.Stays]) rfl
  obtain ⟨settlement, member, own⟩ := served.2 (by decide)
  exact ⟨settlement, member, own, served.1 settlement member own⟩

end ArcReel.Refresh
