import ArcReel.Agent.EventLog

/-! A cursor reader of the event log meets every entry that stays, once, as long as
no append takes a number that a deleted entry had reached. -/

namespace ArcReel.Agent.EventLog
open ArcReel.Lib

section Condition

variable {ε : Type} [DecidableEq ε]

/-- An entry of the session with a number from `seq` on has been deleted. -/
def deletedFrom (s : State ε) (sessionId : String) (seq : Int) : Bool :=
  s.written.any fun row => row.sessionId == sessionId && decide (seq ≤ row.seq) && !s.rows.contains row

/-- An `INSERT` that succeeds starts above every deleted number. -/
def aboveDeleted (s : State ε) : Step ε → Bool
  | .turn id _ => (s.calls.get? id).all fun call =>
      match call.phase with
      | .insert _ seqStart =>
          seqTaken s.rows (call.new seqStart s.written.length) ||
            !deletedFrom s call.sessionId seqStart
      | _ => true
  | _ => true

end Condition

/-! What holds in every state: the numbers of the written rows of a session are `0, 1, …`, each
given once, and a reader has met the rows up to its cursor. -/

section Invariant

variable {ε : Type}

/-- Two rows of one session have different numbers. -/
def NumberedOnce (rows : List (LogRow ε)) : Prop :=
  rows.Pairwise fun a b => ¬(a.sessionId = b.sessionId ∧ a.seq = b.seq)

/-- The number follows the numbers that were given in the session, without a gap. -/
def Follows (written : List (LogRow ε)) (sessionId : String) (seq : Int) : Prop :=
  0 ≤ seq ∧ ∀ n, 0 ≤ n → n < seq → ∃ row ∈ written, row.sessionId = sessionId ∧ row.seq = n

/-- What a reader has got. -/
structure Reader.Complete (rows written : List (LogRow ε)) (reader : Reader ε) : Prop where
  once : reader.reads.flatten.Nodup
  known : ∀ row ∈ reader.reads.flatten,
    row ∈ written ∧ row.sessionId = reader.sessionId ∧ row.seq ≤ reader.cursor
  met : ∀ row ∈ rows, row.sessionId = reader.sessionId → row.seq ≤ reader.cursor →
    row ∈ reader.reads.flatten
  reached : reader.cursor = -1 ∨
    ∃ row ∈ written, row.sessionId = reader.sessionId ∧ row.seq = reader.cursor

structure Ordered (s : State ε) : Prop where
  subset : ∀ row ∈ s.rows, row ∈ s.written
  distinct : s.rows.Nodup
  numbered : NumberedOnce s.written
  dense : ∀ row ∈ s.written, Follows s.written row.sessionId row.seq
  inserting : ∀ id call attempt seqStart, s.calls.get? id = some call →
    call.phase = .insert attempt seqStart → Follows s.written call.sessionId seqStart
  some_ : ∀ id call, s.calls.get? id = some call → call.phase.isOver = false → call.entries ≠ []
  readers : ∀ id reader, s.readers.get? id = some reader → reader.Complete s.rows s.written

variable {s t : State ε}

theorem ordered_start : Ordered (.start : State ε) := by
  refine ⟨?_, .nil, .nil, ?_, ?_, ?_, ?_⟩
  · exact fun row member => nomatch member
  · exact fun row member => nomatch member
  · exact fun id call attempt seqStart found => nomatch found
  · exact fun id call found => nomatch found
  · exact fun id reader found => nomatch found

theorem follows_nextSeq (ordered : Ordered s) (sessionId : String) :
    Follows s.written sessionId (nextSeq s.rows sessionId) := by
  cases nextSeq_cases s.rows sessionId with
  | inl zero =>
    rw [zero]
    exact ⟨le_refl 0, fun n low high => by omega⟩
  | inr found =>
    obtain ⟨row, member, named, last⟩ := found
    have written := ordered.subset row member
    have before := ordered.dense row written
    rw [last, named] at before
    refine ⟨by have := before.1; omega, ?_⟩
    intro n low high
    by_cases same : n = nextSeq s.rows sessionId - 1
    · exact ⟨row, written, named, by rw [last, same]⟩
    · exact before.2 n low (by omega)

theorem ordered_setCall (ordered : Ordered s) {id : Nat} {call : AppendCall ε}
    (inserting : ∀ attempt seqStart, call.phase = .insert attempt seqStart →
      Follows s.written call.sessionId seqStart)
    (some_ : call.phase.isOver = false → call.entries ≠ []) :
    Ordered { s with calls := s.calls.set id call } := by
  refine { ordered with inserting := ?_, some_ := ?_ }
  · intro other known attempt seqStart found phase
    simp only [Dict.get?_set] at found
    split_ifs at found with same
    · rw [← Option.some.inj found] at phase ⊢
      exact inserting attempt seqStart phase
    · exact ordered.inserting other known attempt seqStart found phase
  · intro other known found running
    simp only [Dict.get?_set] at found
    split_ifs at found with same
    · rw [← Option.some.inj found] at running ⊢
      exact some_ running
    · exact ordered.some_ other known found running

theorem follows_mono {written new : List (LogRow ε)} {sessionId : String} {seq : Int}
    (follows : Follows written sessionId seq) : Follows (written ++ new) sessionId seq := by
  refine ⟨follows.1, ?_⟩
  intro n low high
  obtain ⟨row, member, found⟩ := follows.2 n low high
  exact ⟨row, List.mem_append.mpr (.inl member), found⟩

/-- An `INSERT` that succeeds gives numbers above all those that were given before. -/
theorem written_below [DecidableEq ε] (ordered : Ordered s) {call : AppendCall ε} {seqStart : Int}
    {stamp : Nat} (follows : Follows s.written call.sessionId seqStart) (some_ : call.entries ≠ [])
    (free : seqTaken s.rows (call.new seqStart stamp) = false)
    (kept : deletedFrom s call.sessionId seqStart = false) {row : LogRow ε}
    (member : row ∈ s.written) (named : row.sessionId = call.sessionId) : row.seq < seqStart := by
  by_contra above
  have first : ∃ low ∈ s.written, low.sessionId = call.sessionId ∧ low.seq = seqStart := by
    by_cases same : row.seq = seqStart
    · exact ⟨row, member, named, same⟩
    · obtain ⟨low, found, session, number⟩ :=
        (ordered.dense row member).2 seqStart follows.1 (by omega)
      exact ⟨low, found, session.trans named, number⟩
  obtain ⟨low, found, session, number⟩ := first
  have present : low ∈ s.rows := by
    by_contra gone
    have deleted : deletedFrom s call.sessionId seqStart = true := by
      rw [deletedFrom, List.any_eq_true]
      exact ⟨low, found, by simp [session, number, gone]⟩
    rw [kept] at deleted
    cases deleted
  cases entries : call.entries with
  | nil => exact some_ entries
  | cons entry later =>
    have taken : seqTaken s.rows (call.new seqStart stamp) = true := by
      unfold seqTaken AppendCall.new
      rw [entries, newRows, List.any_cons, Bool.or_eq_true]
      left
      rw [List.any_eq_true]
      exact ⟨low, present, by simp [session, number]⟩
    rw [free] at taken
    cases taken

theorem numberedOnce_append {written new : List (LogRow ε)} {sessionId : String} {seqStart : Int}
    (old : NumberedOnce written) (later : NumberedOnce new)
    (below : ∀ row ∈ written, row.sessionId = sessionId → row.seq < seqStart)
    (above : ∀ row ∈ new, row.sessionId = sessionId ∧ seqStart ≤ row.seq) :
    NumberedOnce (written ++ new) := by
  unfold NumberedOnce
  rw [List.pairwise_append]
  refine ⟨old, later, ?_⟩
  intro a earlier b added same
  have low := below a earlier (same.1.trans (above b added).1)
  have high := (above b added).2
  omega

theorem numberedOnce_newRows {sessionId : String} {clientKey : Option String} {entries : List ε} :
    ∀ {seq : Int} {stamp : Nat}, NumberedOnce (newRows sessionId clientKey seq stamp entries) := by
  induction entries with
  | nil =>
    intro seq stamp
    exact .nil
  | cons entry entries ih =>
    intro seq stamp
    refine .cons ?_ ih
    intro row member same
    have later := (mem_newRows member).2.1
    have equal := same.2
    simp only at equal
    omega

/-- A reader keeps what it has when rows with larger numbers are added. -/
theorem complete_append {rows written new : List (LogRow ε)} {reader : Reader ε} {seqStart : Int}
    {sessionId : String} (complete : reader.Complete rows written) (nonneg : 0 ≤ seqStart)
    (below : ∀ row ∈ written, row.sessionId = sessionId → row.seq < seqStart)
    (above : ∀ row ∈ new, row.sessionId = sessionId ∧ seqStart ≤ row.seq) :
    reader.Complete (rows ++ new) (written ++ new) := by
  refine ⟨complete.once, ?_, ?_, ?_⟩
  · intro row member
    have old := complete.known row member
    exact ⟨List.mem_append.mpr (.inl old.1), old.2⟩
  · intro row member named reached
    cases List.mem_append.mp member with
    | inl old => exact complete.met row old named reached
    | inr added =>
      have high := above row added
      cases complete.reached with
      | inl none_ => omega
      | inr last =>
        obtain ⟨other, earlier, session, number⟩ := last
        have low := below other earlier (session.trans (named.symm.trans high.1))
        omega
  · cases complete.reached with
    | inl none_ => exact .inl none_
    | inr last =>
      obtain ⟨other, earlier, found⟩ := last
      exact .inr ⟨other, List.mem_append.mpr (.inl earlier), found⟩

/-- Rows of one session with numbers from `seqStart` on are added above everything written. -/
theorem ordered_append (ordered : Ordered s) {new : List (LogRow ε)} {sessionId : String}
    {seqStart : Int} (count : Nat) (follows : Follows s.written sessionId seqStart)
    (below : ∀ row ∈ s.written, row.sessionId = sessionId → row.seq < seqStart)
    (above : ∀ row ∈ new, row.sessionId = sessionId ∧ seqStart ≤ row.seq ∧
      row.seq < seqStart + count)
    (once : NumberedOnce new) (filled : ∀ n, seqStart ≤ n → n < seqStart + count →
      ∃ row ∈ new, row.seq = n) :
    Ordered { s with rows := s.rows ++ new, written := s.written ++ new } := by
  have bounds : ∀ row ∈ new, row.sessionId = sessionId ∧ seqStart ≤ row.seq :=
    fun row member => ⟨(above row member).1, (above row member).2.1⟩
  have distinct : new.Nodup := once.imp fun {a b} different same => different ⟨by rw [same], by rw [same]⟩
  refine ⟨?_, ?_, numberedOnce_append ordered.numbered once below bounds, ?_, ?_, ordered.some_, ?_⟩
  · intro row member
    cases List.mem_append.mp member with
    | inl old => exact List.mem_append.mpr (.inl (ordered.subset row old))
    | inr added => exact List.mem_append.mpr (.inr added)
  · refine List.nodup_append.mpr ⟨ordered.distinct, distinct, ?_⟩
    intro a old b added same
    have high := bounds b added
    have low := below a (ordered.subset a old) (by rw [same]; exact high.1)
    rw [same] at low
    omega
  · intro row member
    cases List.mem_append.mp member with
    | inl old => exact follows_mono (ordered.dense row old)
    | inr added =>
      have limits := above row added
      refine ⟨by have := follows.1; omega, ?_⟩
      intro n low high
      by_cases early : n < seqStart
      · obtain ⟨other, found, named, number⟩ := follows.2 n low early
        exact ⟨other, List.mem_append.mpr (.inl found), named.trans limits.1.symm, number⟩
      · obtain ⟨other, found, number⟩ := filled n (by omega) (by omega)
        exact ⟨other, List.mem_append.mpr (.inr found),
          (bounds other found).1.trans limits.1.symm, number⟩
  · intro id call attempt start found phase
    exact follows_mono (ordered.inserting id call attempt start found phase)
  · intro id reader found
    exact complete_append (ordered.readers id reader found) follows.1 below bounds

theorem ordered_delete (ordered : Ordered s) (sessionId : String) (seq : Int) :
    Ordered { s with rows := EventLog.deleteEntry s.rows sessionId seq } := by
  have kept : ∀ row ∈ EventLog.deleteEntry s.rows sessionId seq, row ∈ s.rows :=
    fun row member => (List.mem_filter.mp member).1
  refine { ordered with subset := ?_, distinct := ordered.distinct.filter _, readers := ?_ }
  · exact fun row member => ordered.subset row (kept row member)
  · intro id reader found
    have complete := ordered.readers id reader found
    exact { complete with met := fun row member => complete.met row (kept row member) }

theorem ordered_setReader (ordered : Ordered s) {id : Nat} {reader : Reader ε}
    (complete : reader.Complete s.rows s.written) :
    Ordered { s with readers := s.readers.set id reader } := by
  refine { ordered with readers := ?_ }
  intro other known found
  simp only [Dict.get?_set] at found
  split_ifs at found
  · rwa [← Option.some.inj found]
  · exact ordered.readers other known found

/-- After a read the reader has met every row of its session, each once. -/
theorem read_complete (ordered : Ordered s) {reader : Reader ε}
    (complete : reader.Complete s.rows s.written) :
    (reader.read s.rows).Complete s.rows s.written ∧
      ∀ row ∈ s.rows, row.sessionId = reader.sessionId →
        row.seq ≤ (reader.read s.rows).cursor := by
  have answered : (reader.read s.rows).reads.flatten =
      reader.reads.flatten ++ listAfter s.rows reader.sessionId reader.cursor := by
    simp [Reader.read]
  have further : reader.cursor ≤ (reader.read s.rows).cursor := le_foldl_max _ _
  have reaches : ∀ row ∈ listAfter s.rows reader.sessionId reader.cursor,
      row.seq ≤ (reader.read s.rows).cursor :=
    fun row member => le_foldl_max_of_mem _ (List.mem_map_of_mem member)
  have everything : ∀ row ∈ s.rows, row.sessionId = reader.sessionId →
      row.seq ≤ (reader.read s.rows).cursor := by
    intro row member named
    by_cases early : row.seq ≤ reader.cursor
    · exact early.trans further
    · exact reaches row (mem_listAfter.mpr ⟨member, named, by omega⟩)
  refine ⟨⟨?_, ?_, ?_, ?_⟩, everything⟩
  · rw [answered]
    refine List.nodup_append.mpr ⟨complete.once, nodup_listAfter ordered.distinct, ?_⟩
    intro a old b new same
    have low := (complete.known a old).2.2
    have high := (mem_listAfter.mp new).2.2
    rw [same] at low
    omega
  · rw [answered]
    intro row member
    cases List.mem_append.mp member with
    | inl old =>
      have known := complete.known row old
      exact ⟨known.1, known.2.1, known.2.2.trans further⟩
    | inr new =>
      have found := mem_listAfter.mp new
      exact ⟨ordered.subset row found.1, found.2.1, reaches row new⟩
  · rw [answered]
    intro row member named reached
    by_cases early : row.seq ≤ reader.cursor
    · exact List.mem_append.mpr (.inl (complete.met row member named early))
    · exact List.mem_append.mpr (.inr (mem_listAfter.mpr ⟨member, named, by omega⟩))
  · cases foldl_max_mem ((listAfter s.rows reader.sessionId reader.cursor).map LogRow.seq)
      reader.cursor with
    | inl same =>
      have stays : (reader.read s.rows).cursor = reader.cursor := same
      rw [stays]
      exact complete.reached
    | inr moved =>
      obtain ⟨row, member, number⟩ := List.mem_map.mp moved
      have found := mem_listAfter.mp member
      exact .inr ⟨row, ordered.subset row found.1, found.2.1, number⟩

end Invariant

/-! Every step that meets the condition keeps the log ordered. -/

section Run

variable {ε : Type} {uuid : ε → Option String} {s t : State ε}

theorem ordered_setPhase (ordered : Ordered s) {id : Nat} {call : AppendCall ε} {phase : Phase ε}
    (inserting : ∀ attempt seqStart, phase = .insert attempt seqStart →
      Follows s.written call.sessionId seqStart)
    (some_ : phase.isOver = false → call.entries ≠ []) : Ordered (s.setPhase id call phase) :=
  ordered_setCall ordered inserting some_

theorem ordered_insert [DecidableEq ε] (ordered : Ordered s) {id : Nat} {call : AppendCall ε}
    {attempt : Nat} {seqStart : Int} {keyFirst : Bool}
    (follows : Follows s.written call.sessionId seqStart) (some_ : call.entries ≠ [])
    (above : (seqTaken s.rows (call.new seqStart s.written.length) ||
      !deletedFrom s call.sessionId seqStart) = true) :
    Ordered (insertTurn s id call attempt seqStart keyFirst) := by
  unfold insertTurn
  simp only
  split_ifs with key race last
  · exact ordered_setPhase ordered (fun _ _ other => nomatch other) fun _ => some_
  · exact ordered_setPhase ordered (fun _ _ other => nomatch other) fun _ => some_
  · exact ordered_setPhase ordered (fun _ _ other => nomatch other) fun _ => some_
  · have free : seqTaken s.rows (call.new seqStart s.written.length) = false := by simpa using race
    have kept : deletedFrom s call.sessionId seqStart = false := by simpa [free] using above
    have below : ∀ row ∈ s.written, row.sessionId = call.sessionId → row.seq < seqStart :=
      fun row member => written_below ordered follows some_ free kept member
    have returned : Ordered (s.setPhase id call (.returned
        ((call.new seqStart s.written.length).map fun row => (row.seq, row.payload)) true)) :=
      ordered_setPhase ordered (fun _ _ other => nomatch other) (fun running => nomatch running)
    refine ordered_append returned call.entries.length follows below ?_ numberedOnce_newRows
      (fun n low high => newRows_seq_mem _ _ n low high)
    intro row member
    have found := mem_newRows member
    exact ⟨found.1, found.2.1, found.2.2.2⟩

theorem ordered_callTurn [DecidableEq ε] (ordered : Ordered s) {id : Nat} {call : AppendCall ε}
    {keyFirst : Bool} (known : s.calls.get? id = some call)
    (above : aboveDeleted s (.turn id keyFirst) = true)
    (stepped : callTurn uuid s id call keyFirst = some t) : Ordered t := by
  have some_ := ordered.some_ id call known
  unfold callTurn at stepped
  rw [aboveDeleted, known, Option.all_some] at above
  cases phase : call.phase with
  | lookup =>
    rw [phase] at some_
    simp only [phase] at stepped
    cases found : call.existing s.rows with
    | some row =>
      rw [found] at stepped
      rw [← Option.some.inj stepped]
      exact ordered_setPhase ordered (fun _ _ other => nomatch other) fun running => nomatch running
    | none =>
      rw [found] at stepped
      rw [← Option.some.inj stepped]
      exact ordered_setPhase ordered (fun _ _ other => nomatch other) fun _ => some_ rfl
  | select attempt =>
    rw [phase] at some_
    simp only [phase] at stepped
    rw [← Option.some.inj stepped]
    refine ordered_setPhase ordered ?_ fun _ => some_ rfl
    intro other seqStart same
    rw [← (Phase.insert.inj same).2]
    exact follows_nextSeq ordered call.sessionId
  | insert attempt seqStart =>
    rw [phase] at some_
    simp only [phase] at stepped above
    rw [← Option.some.inj stepped]
    exact ordered_insert ordered (ordered.inserting id call attempt seqStart known phase)
      (some_ rfl) above
  | conflict =>
    rw [phase] at some_
    simp only [phase] at stepped
    cases found : call.existing s.rows with
    | some row =>
      rw [found] at stepped
      rw [← Option.some.inj stepped]
      exact ordered_setPhase ordered (fun _ _ other => nomatch other) fun running => nomatch running
    | none =>
      rw [found] at stepped
      rw [← Option.some.inj stepped]
      exact ordered_setPhase ordered (fun _ _ other => nomatch other) fun running => nomatch running
  | returned entries created =>
    simp only [phase] at stepped
    cases stepped
  | raised =>
    simp only [phase] at stepped
    cases stepped

theorem ordered_step [DecidableEq ε] (ordered : Ordered s) {next : Step ε}
    (above : aboveDeleted s next = true) (stepped : step uuid s next = some t) : Ordered t := by
  cases next with
  | append id sessionId entries clientKey =>
    simp only [step] at stepped
    split at stepped
    · cases stepped
    rw [← Option.some.inj stepped]
    refine ordered_setCall ordered ?_ ?_
    · intro attempt seqStart phase
      simp only at phase
      split_ifs at phase
    · intro running none_
      have empty : entries = [] := none_
      rw [empty] at running
      cases running
  | appendUserEntry id sessionId entry clientKey =>
    simp only [step] at stepped
    split at stepped
    · cases stepped
    rw [← Option.some.inj stepped]
    refine ordered_setCall ordered ?_ fun _ => List.cons_ne_nil entry []
    intro attempt seqStart phase
    simp only at phase
    split_ifs at phase
  | turn id keyFirst =>
    obtain ⟨call, known, turned⟩ := Option.bind_eq_some_iff.mp stepped
    exact ordered_callTurn ordered known above turned
  | fail id =>
    obtain ⟨call, known, failed⟩ := Option.bind_eq_some_iff.mp stepped
    split_ifs at failed
    rw [← Option.some.inj failed]
    exact ordered_setPhase ordered (fun _ _ other => nomatch other) fun running => nomatch running
  | deleteEntry sessionId seq =>
    rw [← Option.some.inj stepped]
    exact ordered_delete ordered sessionId seq
  | openReader id sessionId =>
    simp only [step] at stepped
    split_ifs at stepped
    rw [← Option.some.inj stepped]
    refine ordered_setReader ordered ⟨.nil, (fun row member => nomatch member), ?_, .inl rfl⟩
    intro row member named reached
    have written := ordered.dense row (ordered.subset row member)
    have nonneg := written.1
    simp only at reached
    omega
  | read id =>
    obtain ⟨reader, found, read⟩ := Option.map_eq_some_iff.mp stepped
    rw [← read]
    exact ordered_setReader ordered (read_complete ordered (ordered.readers id reader found)).1

theorem ordered_run [DecidableEq ε] {steps : List (Step ε)}
    (all : allSteps (step uuid) aboveDeleted steps .start = true)
    (ran : runSteps (step uuid) steps .start = some s) : Ordered s :=
  runSteps_induct_of (fun _ _ _ ordered above stepped => ordered_step ordered above stepped)
    ordered_start all ran

theorem callTurn_readers {id : Nat} {call : AppendCall ε} {keyFirst : Bool}
    (stepped : callTurn uuid s id call keyFirst = some t) : t.readers = s.readers := by
  unfold callTurn at stepped
  split at stepped
  · split at stepped <;> exact (Option.some.inj stepped) ▸ rfl
  · exact (Option.some.inj stepped) ▸ rfl
  · rw [← Option.some.inj stepped]
    unfold insertTurn
    simp only
    split_ifs <;> rfl
  · split at stepped <;> exact (Option.some.inj stepped) ▸ rfl
  · cases stepped
  · cases stepped

/-- The reader reads the same session and has kept its answers. -/
def Reader.Extends (old new : Reader ε) : Prop :=
  new.sessionId = old.sessionId ∧ ∀ row ∈ old.reads.flatten, row ∈ new.reads.flatten

def Continued (id : Nat) (old : Reader ε) (s : State ε) : Prop :=
  ∃ reader, s.readers.get? id = some reader ∧ old.Extends reader

theorem extends_read (reader : Reader ε) (rows : List (LogRow ε)) :
    reader.Extends (reader.read rows) := by
  refine ⟨rfl, ?_⟩
  intro row member
  simp only [Reader.read, List.flatten_append, List.mem_append]
  exact .inl member

theorem continued_step {id : Nat} {old : Reader ε} {next : Step ε} (continued : Continued id old s)
    (stepped : step uuid s next = some t) : Continued id old t := by
  obtain ⟨reader, found, extends_⟩ := continued
  have keeps : t.readers = s.readers → Continued id old t := fun same =>
    ⟨reader, by rw [same]; exact found, extends_⟩
  cases next with
  | append other sessionId entries clientKey =>
    simp only [step] at stepped
    split at stepped
    · cases stepped
    · exact keeps (by rw [← Option.some.inj stepped])
  | appendUserEntry other sessionId entry clientKey =>
    simp only [step] at stepped
    split at stepped
    · cases stepped
    · exact keeps (by rw [← Option.some.inj stepped])
  | turn other keyFirst =>
    obtain ⟨call, known, turned⟩ := Option.bind_eq_some_iff.mp stepped
    exact keeps (callTurn_readers turned)
  | fail other =>
    obtain ⟨call, known, failed⟩ := Option.bind_eq_some_iff.mp stepped
    split_ifs at failed
    exact keeps (by rw [← Option.some.inj failed]; rfl)
  | deleteEntry sessionId seq => exact keeps (by rw [← Option.some.inj stepped])
  | openReader other sessionId =>
    simp only [step] at stepped
    split at stepped
    · cases stepped
    · rename_i fresh
      rw [← Option.some.inj stepped]
      have apart : id ≠ other := by
        intro same
        rw [same] at found
        exact fresh ((Dict.mem_keys_iff s.readers other).mpr ⟨reader, found⟩)
      exact ⟨reader, by rw [Dict.get?_set, if_neg apart]; exact found, extends_⟩
  | read other =>
    obtain ⟨older, known, read⟩ := Option.map_eq_some_iff.mp stepped
    rw [← read]
    by_cases same : id = other
    · rw [same, known] at found
      have equal : older = reader := Option.some.inj found
      have further := extends_read reader s.rows
      refine ⟨reader.read s.rows, by rw [Dict.get?_set, if_pos same, equal], ?_⟩
      exact ⟨further.1.trans extends_.1, fun row member => further.2 row (extends_.2 row member)⟩
    · exact ⟨reader, by rw [Dict.get?_set, if_neg same]; exact found, extends_⟩

/-- If every `INSERT` that succeeds starts above the deleted numbers, then an entry that is in the
log at a read and stays is contained in the reads exactly once, and no number is given twice. -/
theorem cursor_readers_miss_nothing [DecidableEq ε] (uuid : ε → Option String)
    (before after : List (Step ε)) (id : Nat) (s t : State ε)
    (all : allSteps (step uuid) aboveDeleted (before ++ .read id :: after) .start = true)
    (reached : runSteps (step uuid) before .start = some s)
    (ran : runSteps (step uuid) (before ++ .read id :: after) .start = some t) :
    (∃ reader, t.readers.get? id = some reader ∧
      ∀ row ∈ s.rows, row ∈ t.rows → row.sessionId = reader.sessionId →
        reader.reads.flatten.count row = 1) ∧ NumberedOnce t.written := by
  have orderedEnd := ordered_run all ran
  refine ⟨?_, orderedEnd.numbered⟩
  obtain ⟨middle, first, rest⟩ := runSteps_append.mp ran
  have same : s = middle := Option.some.inj (reached.symm.trans first)
  subst same
  rw [allSteps_append reached, Bool.and_eq_true] at all
  have ordered := ordered_run all.1 reached
  obtain ⟨read, stepped, later⟩ := runSteps_cons.mp rest
  obtain ⟨old, found, answered⟩ := Option.map_eq_some_iff.mp stepped
  have complete := read_complete ordered (ordered.readers id old found)
  have begun : Continued id (old.read s.rows) read := by
    rw [← answered]
    exact ⟨old.read s.rows, by rw [Dict.get?_set, if_pos rfl], rfl, fun row member => member⟩
  obtain ⟨reader, last, kept⟩ := runSteps_induct
    (fun _ _ _ continued next => continued_step continued next) begun later
  refine ⟨reader, last, ?_⟩
  intro row present stays named
  have session : row.sessionId = old.sessionId := named.trans kept.1
  have met := complete.1.met row present session (complete.2 row present session)
  exact List.count_eq_one_of_mem (orderedEnd.readers id reader last).once (kept.2 row met)

/-- Two appends race for a number, the loser moves on, and the reader reads twice. -/
private def raceAndRead : List (Step String) :=
  [.openReader 0 "s", .append 1 "s" ["a"] none, .append 2 "s" ["b"] none, .turn 1 false,
    .turn 2 false, .turn 1 false, .turn 2 false, .turn 2 false, .turn 2 false]

private theorem raceAndRead_before : (runSteps (step some) raceAndRead .start).isSome := by decide

private theorem raceAndRead_run :
    (runSteps (step some) (raceAndRead ++ .read 0 :: [.read 0]) .start).isSome := by decide

theorem cursor_readers_miss_nothing_race :
    ∃ s t, runSteps (step some) raceAndRead .start = some s ∧
      runSteps (step some) (raceAndRead ++ .read 0 :: [.read 0]) .start = some t ∧
        (∃ reader, t.readers.get? 0 = some reader ∧
          ∀ row ∈ s.rows, row ∈ t.rows → row.sessionId = reader.sessionId →
            reader.reads.flatten.count row = 1) ∧ NumberedOnce t.written :=
  ⟨_, _, (Option.some_get raceAndRead_before).symm, (Option.some_get raceAndRead_run).symm,
    cursor_readers_miss_nothing some raceAndRead [.read 0] 0 _ _ (by decide)
      (Option.some_get raceAndRead_before).symm (Option.some_get raceAndRead_run).symm⟩

/-- A user entry is appended, read and rolled back, then another entry is appended and read. -/
private def readThenRollback : List (Step String) :=
  [.openReader 0 "s", .appendUserEntry 1 "s" "hello" (some "k"), .turn 1 false, .turn 1 false,
    .turn 1 false, .read 0, .deleteEntry "s" 0, .append 2 "s" ["answer"] none, .turn 2 false,
    .turn 2 false]

private theorem readThenRollback_before :
    (runSteps (step some) readThenRollback .start).isSome := by decide

private theorem readThenRollback_run :
    (runSteps (step some) (readThenRollback ++ [.read 0]) .start).isSome := by decide

/-- The second entry gets the number of the first and is never read. -/
theorem reused_number_is_never_read :
    ∃ before after : List (Step String), ∃ s t row reader,
      runSteps (step some) before .start = some s ∧
      runSteps (step some) (before ++ .read 0 :: after) .start = some t ∧
      row ∈ s.rows ∧ row ∈ t.rows ∧ t.readers.get? 0 = some reader ∧
      row.sessionId = reader.sessionId ∧ reader.reads.flatten.count row = 0 ∧
      ¬NumberedOnce t.written := by
  refine ⟨readThenRollback, [], _, _, ⟨"s", 0, "answer", none, 1⟩,
    ⟨"s", 0, [[⟨"s", 0, "hello", some "k", 0⟩], []]⟩, (Option.some_get readThenRollback_before).symm,
    (Option.some_get readThenRollback_run).symm, ?_, ?_, ?_, rfl, ?_, ?_⟩
  · decide
  · decide
  · decide
  · decide
  · unfold NumberedOnce
    decide

end Run

end ArcReel.Agent.EventLog
