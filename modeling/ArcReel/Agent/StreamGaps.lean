import ArcReel.Agent.EntryStream

/-! The entry stream has no gaps, unless a broadcast overtakes that of an earlier
entry which the stream has not read from the log. -/

namespace ArcReel.Agent.EntryStream
open ArcReel.Lib ArcReel.Agent.EventLog

section Condition

variable {ε : Type} [DecidableEq ε]

/-- The stream has read the log and follows, or will follow, the channel. -/
def Phase.isLive : Phase ε → Bool
  | .replaying live _ => live
  | .following _ _ => true
  | _ => false

/-- The stream does not depend on the broadcast of the row. -/
def Stream.covers (stream : Stream ε) (row : LogRow ε) : Bool :=
  decide (row.seq ≤ stream.afterSeq) || stream.answer.contains row

/-- A broadcast to a live stream overtakes no earlier entry that the stream depends on. -/
def inOrder (s : State ε) : Step ε → Bool
  | .broadcast id => (s.appends.get? id).all fun rows =>
      !s.stream.phase.isLive || s.appends.entries.all fun append =>
        append.1 == id || append.2.all fun row =>
          s.stream.covers row || rows.all fun sent => decide (sent.seq < row.seq)
  | _ => true

end Condition

section Invariant

variable {ε : Type}

/-- The numbers rise. -/
def Ascending (rows : List (LogRow ε)) : Prop := rows.Pairwise fun a b => a.seq < b.seq

namespace Stream

/-- The rows that the loop over the answer has still to yield. -/
def ahead (stream : Stream ε) : List (LogRow ε) :=
  match stream.phase with
  | .replaying _ rest => rest
  | _ => []

/-- The entries that the stream has yielded or will yield from its answer. -/
def shown (stream : Stream ε) : List (LogRow ε) := stream.entries ++ stream.ahead

/-- The largest number that the stream has shown. -/
def top (stream : Stream ε) : Int := (stream.ahead.map LogRow.seq).foldl max stream.lastSeq

/-- The entries in the queue of the subscription. -/
def queued (stream : Stream ε) : List (LogRow ε) :=
  (stream.queue.getD []).filterMap Message.row?

end Stream

/-- The stream has not read the log yet. -/
def Phase.unread : Phase ε → Bool
  | .starting | .subscribing | .listing _ => true
  | _ => false

/-- What has been shown: everything after the cursor up to the top, in order. -/
structure Shown (rows : List (LogRow ε)) (stream : Stream ε) : Prop where
  ascending : Ascending stream.shown
  bounded : ∀ row ∈ stream.shown, stream.afterSeq < row.seq ∧ row.seq ≤ stream.top
  complete : ∀ row ∈ rows, stream.afterSeq < row.seq → row.seq ≤ stream.top → row ∈ stream.shown
  low : stream.afterSeq ≤ stream.top
  reached : stream.top = stream.afterSeq ∨ ∃ row ∈ rows, row.seq = stream.top
  unread : stream.phase.unread = true → stream.shown = [] ∧ stream.lastSeq = stream.afterSeq
  answered : ∀ row ∈ stream.answer, row.seq ≤ stream.top

/-- What the queue of a live stream holds: the entries above the top that were broadcast, in order
and without a gap. -/
structure Fresh (s : State ε) : Prop where
  subscribed : s.stream.queue.isSome = true
  ascending : Ascending (s.stream.queued.filter fun row => decide (s.stream.top < row.seq))
  sent : ∀ row ∈ s.rows, s.stream.top < row.seq →
    row ∈ s.stream.queued ∨ ∃ id rows, s.appends.get? id = some rows ∧ row ∈ rows
  dense : ∀ later ∈ s.stream.queued, s.stream.top < later.seq →
    ∀ row ∈ s.rows, s.stream.top < row.seq → row.seq < later.seq → row ∈ s.stream.queued

structure Sound (sessionId : String) (s : State ε) : Prop where
  ascending : Ascending s.rows
  session : ∀ row ∈ s.rows, row.sessionId = sessionId
  pending : ∀ id rows, s.appends.get? id = some rows → Ascending rows ∧ ∀ row ∈ rows, row ∈ s.rows
  apart : ∀ id other rows others, s.appends.get? id = some rows → s.appends.get? other = some others →
    id ≠ other → ∀ row ∈ rows, row ∉ others
  shown : Shown s.rows s.stream
  queued : ∀ row ∈ s.stream.queued, row ∈ s.rows
  unsent : ∀ id rows, s.appends.get? id = some rows → ∀ row ∈ rows, row ∉ s.stream.queued
  subscribed : s.stream.phase = .listing true → s.stream.queue.isSome = true
  fresh : s.stream.phase.isLive = true → Fresh s

end Invariant

section Lemmas

variable {ε : Type} {sessionId : String} {s : State ε} {stream : Stream ε}

theorem sound_start (afterSeq : Int) : Sound (ε := ε) sessionId (.start afterSeq) := by
  refine ⟨.nil, nofun, nofun, nofun, ?_, nofun, nofun, nofun, nofun⟩
  exact ⟨.nil, nofun, nofun, le_refl afterSeq, .inl rfl, fun _ => ⟨rfl, rfl⟩, nofun⟩

/-- The next number is above all numbers of the session. -/
theorem lt_nextSeq {rows : List (LogRow ε)} {row : LogRow ε} (member : row ∈ rows)
    (named : row.sessionId = sessionId) : row.seq < nextSeq rows sessionId := by
  have listed : row.seq ∈ (rows.filter fun row => row.sessionId == sessionId).map LogRow.seq :=
    List.mem_map_of_mem (List.mem_filter.mpr ⟨member, by simpa using named⟩)
  have bound := le_foldl_max_of_mem (-1) listed
  unfold nextSeq
  omega

theorem ascending_newRows {clientKey : Option String} {entries : List ε} :
    ∀ {seq : Int} {stamp : Nat}, Ascending (newRows sessionId clientKey seq stamp entries) := by
  induction entries with
  | nil =>
    intro seq stamp
    exact .nil
  | cons entry entries ih =>
    intro seq stamp
    refine .cons ?_ ih
    intro row member
    have later := (mem_newRows member).2.1
    simp only
    omega

theorem listAfter_ascending {rows : List (LogRow ε)} (ascending : Ascending rows) (afterSeq : Int) :
    Ascending (listAfter rows sessionId afterSeq) := by
  have kept : Ascending (rows.filter fun row =>
      row.sessionId == sessionId && decide (afterSeq < row.seq)) :=
    List.Pairwise.filter _ ascending
  have sorted : listAfter rows sessionId afterSeq = rows.filter fun row =>
      row.sessionId == sessionId && decide (afterSeq < row.seq) :=
    List.Pairwise.insertionSort_eq (kept.imp fun {a b} less => le_of_lt less)
  rw [sorted]
  exact kept

/-- Rows above all numbers change nothing that has been shown. -/
theorem shown_append {rows new : List (LogRow ε)} (shown : Shown rows stream)
    (above : ∀ row ∈ new, ∀ old ∈ rows, old.seq < row.seq) : Shown (rows ++ new) stream := by
  refine { shown with complete := ?_, reached := ?_ }
  · intro row member later reached
    cases List.mem_append.mp member with
    | inl old => exact shown.complete row old later reached
    | inr added =>
      cases shown.reached with
      | inl none_ => omega
      | inr last =>
        obtain ⟨old, known, number⟩ := last
        have less := above row added old known
        omega
  · exact shown.reached.imp_right fun last => by
      obtain ⟨row, known, number⟩ := last
      exact ⟨row, List.mem_append.mpr (.inl known), number⟩

theorem sound_commit (sound : Sound sessionId s) {id : Nat} {entries : List ε}
    {clientKey : Option String} (unused : s.appends.get? id = none) :
    let new := newRows sessionId clientKey (nextSeq s.rows sessionId) s.rows.length entries
    Sound sessionId { s with rows := s.rows ++ new, appends := s.appends.set id new } := by
  intro new
  have above : ∀ row ∈ new, ∀ old ∈ s.rows, old.seq < row.seq := by
    intro row member old known
    have less := lt_nextSeq known (sound.session old known)
    have high := (mem_newRows member).2.1
    omega
  have new_ : ∀ row ∈ new, row ∉ s.rows := fun row member old =>
    absurd (above row member row old) (lt_irrefl _)
  refine ⟨?_, ?_, ?_, ?_, shown_append sound.shown above, ?_, ?_, sound.subscribed, ?_⟩
  · exact List.pairwise_append.mpr
      ⟨sound.ascending, ascending_newRows, fun old known row member => above row member old known⟩
  · intro row member
    cases List.mem_append.mp member with
    | inl old => exact sound.session row old
    | inr added => exact (mem_newRows added).1
  · intro other rows found
    simp only [Dict.get?_set] at found
    split_ifs at found
    · rw [← Option.some.inj found]
      exact ⟨ascending_newRows, fun row member => List.mem_append.mpr (.inr member)⟩
    · have old := sound.pending other rows found
      exact ⟨old.1, fun row member => List.mem_append.mpr (.inl (old.2 row member))⟩
  · intro first second rows others found there different row member
    simp only [Dict.get?_set] at found there
    split_ifs at found there with isFirst isSecond isSecond
    · exact absurd (isFirst.trans isSecond.symm) different
    · rw [← Option.some.inj found] at member
      exact fun listed => new_ row member ((sound.pending second others there).2 row listed)
    · rw [← Option.some.inj there]
      exact fun listed => new_ row listed ((sound.pending first rows found).2 row member)
    · exact sound.apart first second rows others found there different row member
  · exact fun row member => List.mem_append.mpr (.inl (sound.queued row member))
  · intro other rows found row member
    simp only [Dict.get?_set] at found
    split_ifs at found
    · rw [← Option.some.inj found] at member
      exact fun listed => new_ row member (sound.queued row listed)
    · exact sound.unsent other rows found row member
  · intro live
    have fresh := sound.fresh live
    refine ⟨fresh.subscribed, fresh.ascending, ?_, ?_⟩
    · intro row member high
      cases List.mem_append.mp member with
      | inr added => exact .inr ⟨id, new, by rw [Dict.get?_set, if_pos rfl], added⟩
      | inl old =>
        refine (fresh.sent row old high).imp_right ?_
        intro waiting
        obtain ⟨other, rows, found, listed⟩ := waiting
        have apart : other ≠ id := by
          intro same
          rw [same, unused] at found
          cases found
        exact ⟨other, rows, by rw [Dict.get?_set, if_neg apart]; exact found, listed⟩
    · intro later queued high row member low less
      cases List.mem_append.mp member with
      | inl old => exact fresh.dense later queued high row old low less
      | inr added =>
        have more := above row added later (sound.queued later queued)
        omega

theorem queued_deliver (subscribed : stream.queue.isSome = true) (messages : List (Message ε)) :
    (stream.deliver messages).queued = stream.queued ++ messages.filterMap Message.row? := by
  obtain ⟨queue, found⟩ := Option.isSome_iff_exists.mp subscribed
  simp [Stream.queued, Stream.deliver, found]

theorem queued_deliver_none (unsubscribed : stream.queue = none) (messages : List (Message ε)) :
    (stream.deliver messages).queued = stream.queued := by
  simp [Stream.queued, Stream.deliver, unsubscribed]

theorem filterMap_logEntry (rows : List (LogRow ε)) :
    (rows.map Message.logEntry).filterMap Message.row? = rows := by
  induction rows with
  | nil => rfl
  | cons row rows ih => simp [ih]

theorem shown_deliver {rows : List (LogRow ε)} (shown : Shown rows stream)
    (messages : List (Message ε)) : Shown rows (stream.deliver messages) :=
  ⟨shown.ascending, shown.bounded, shown.complete, shown.low, shown.reached, shown.unread,
    shown.answered⟩

/-- A message that is no entry. -/
theorem sound_announce (sound : Sound sessionId s) {messages : List (Message ε)}
    (silent : messages.filterMap Message.row? = []) :
    Sound sessionId { s with stream := s.stream.deliver messages } := by
  have same : (s.stream.deliver messages).queued = s.stream.queued := by
    cases queue : s.stream.queue with
    | none => exact queued_deliver_none queue messages
    | some waiting =>
      rw [queued_deliver (by rw [queue]; rfl), silent, List.append_nil]
  refine { sound with
    shown := shown_deliver sound.shown messages, queued := ?_, unsent := ?_, fresh := ?_
    subscribed := fun listing => by simpa [Stream.deliver] using sound.subscribed listing }
  · intro row member
    exact sound.queued row (same ▸ member)
  · intro id rows found row member
    show row ∉ (s.stream.deliver messages).queued
    rw [same]
    exact sound.unsent id rows found row member
  · intro live
    have fresh := sound.fresh live
    refine ⟨by simpa [Stream.deliver] using fresh.subscribed, ?_, ?_, ?_⟩
    · show Ascending ((s.stream.deliver messages).queued.filter _)
      rw [same]
      exact fresh.ascending
    · intro row member high
      show row ∈ (s.stream.deliver messages).queued ∨ _
      rw [same]
      exact fresh.sent row member high
    · intro later waiting high row member low less
      show row ∈ (s.stream.deliver messages).queued
      rw [same]
      exact fresh.dense later (same ▸ waiting) high row member low less

/-- Rows with one number are one row. -/
theorem eq_of_seq {rows : List (LogRow ε)} (ascending : Ascending rows) {a b : LogRow ε}
    (first : a ∈ rows) (second : b ∈ rows) (same : a.seq = b.seq) : a = b := by
  induction rows with
  | nil => cases first
  | cons head rows ih =>
    have parts := List.pairwise_cons.mp ascending
    cases List.mem_cons.mp first with
    | inl isHead =>
      cases List.mem_cons.mp second with
      | inl alsoHead => rw [isHead, alsoHead]
      | inr later =>
        have less := parts.1 b later
        rw [← isHead] at less
        omega
    | inr later =>
      cases List.mem_cons.mp second with
      | inl isHead =>
        have less := parts.1 a later
        rw [← isHead] at less
        omega
      | inr alsoLater => exact ih parts.2 later alsoLater

theorem fresh_broadcast [DecidableEq ε] (sound : Sound sessionId s) {id : Nat}
    {rows : List (LogRow ε)} (known : s.appends.get? id = some rows)
    (ordered : inOrder s (.broadcast id) = true) (live : s.stream.phase.isLive = true) :
    Fresh { s with
      appends := s.appends.erase id, stream := s.stream.deliver (rows.map .logEntry) } := by
  have listed := sound.pending id rows known
  have fresh := sound.fresh live
  have grown : (s.stream.deliver (rows.map .logEntry)).queued = s.stream.queued ++ rows := by
    rw [queued_deliver fresh.subscribed, filterMap_logEntry]
  have sent : ∀ row ∈ s.rows, s.stream.top < row.seq → row ∈ s.stream.queued ++ rows ∨
      ∃ other others, other ≠ id ∧ s.appends.get? other = some others ∧ row ∈ others := by
    intro row member high
    cases fresh.sent row member high with
    | inl queued => exact .inl (List.mem_append.mpr (.inl queued))
    | inr waiting =>
      obtain ⟨other, others, found, inside⟩ := waiting
      by_cases same : other = id
      · rw [same, known] at found
        rw [← Option.some.inj found] at inside
        exact .inl (List.mem_append.mpr (.inr inside))
      · exact .inr ⟨other, others, same, found, inside⟩
  refine ⟨by simpa [Stream.deliver] using fresh.subscribed, ?_, ?_, ?_⟩
  · show Ascending ((s.stream.deliver (rows.map .logEntry)).queued.filter _)
    rw [grown, List.filter_append]
    refine List.pairwise_append.mpr ⟨fresh.ascending, List.Pairwise.filter _ listed.1, ?_⟩
    intro old queued row broadcast
    have oldHigh := List.mem_filter.mp queued
    have rowHigh := List.mem_filter.mp broadcast
    rw [decide_eq_true_eq] at oldHigh rowHigh
    have fresh_ := sound.unsent id rows known row rowHigh.1
    by_contra notLess
    cases lt_or_eq_of_le (not_lt.mp notLess) with
    | inl less =>
      exact fresh_ (fresh.dense old oldHigh.1 oldHigh.2 row (listed.2 row rowHigh.1) rowHigh.2 less)
    | inr same =>
      have equal := eq_of_seq sound.ascending (listed.2 row rowHigh.1) (sound.queued old oldHigh.1) same
      exact fresh_ (equal ▸ oldHigh.1)
  · intro row member high
    show row ∈ (s.stream.deliver (rows.map .logEntry)).queued ∨ _
    rw [grown]
    refine (sent row member high).imp_right ?_
    intro waiting
    obtain ⟨other, others, apart, found, inside⟩ := waiting
    exact ⟨other, others, by rw [Dict.get?_erase, if_neg apart]; exact found, inside⟩
  · intro later queued high row member low less
    have queued : later ∈ s.stream.queued ++ rows := grown ▸ queued
    show row ∈ (s.stream.deliver (rows.map .logEntry)).queued
    rw [grown]
    cases List.mem_append.mp queued with
    | inl old =>
      exact List.mem_append.mpr (.inl (fresh.dense later old high row member low less))
    | inr new =>
      refine (sent row member low).resolve_right ?_
      intro waiting
      obtain ⟨other, others, apart, found, inside⟩ := waiting
      have entry := (Dict.get?_eq_some_iff s.appends other others).mp found
      simp only [inOrder, known, Option.all_some, live, Bool.not_true, Bool.false_or,
        List.all_eq_true] at ordered
      have checked := ordered (other, others) entry
      simp only [beq_iff_eq, Bool.or_eq_true, apart, false_or, List.all_eq_true, decide_eq_true_eq]
        at checked
      cases checked row inside with
      | inr overtakes =>
        have more := overtakes later new
        omega
      | inl covered =>
        rw [Stream.covers, Bool.or_eq_true, decide_eq_true_eq, List.contains_iff_mem] at covered
        have floor := sound.shown.low
        cases covered with
        | inl early =>
          have low : s.stream.top < row.seq := low
          omega
        | inr answered =>
          have bound := sound.shown.answered row answered
          have low : s.stream.top < row.seq := low
          omega

theorem sound_broadcast [DecidableEq ε] (sound : Sound sessionId s) {id : Nat}
    {rows : List (LogRow ε)} (known : s.appends.get? id = some rows)
    (ordered : inOrder s (.broadcast id) = true) :
    Sound sessionId { s with
      appends := s.appends.erase id, stream := s.stream.deliver (rows.map .logEntry) } := by
  have listed := sound.pending id rows known
  have grown : ∀ row ∈ (s.stream.deliver (rows.map .logEntry)).queued,
      row ∈ s.stream.queued ∨ row ∈ rows := by
    intro row member
    cases queue : s.stream.queue with
    | none =>
      rw [queued_deliver_none queue] at member
      exact .inl member
    | some waiting =>
      rw [queued_deliver (by rw [queue]; rfl), filterMap_logEntry] at member
      exact List.mem_append.mp member
  refine ⟨sound.ascending, sound.session, ?_, ?_, shown_deliver sound.shown _, ?_, ?_,
    fun listing => by simpa [Stream.deliver] using sound.subscribed listing,
    fresh_broadcast sound known ordered⟩
  · intro other waiting found
    simp only [Dict.get?_erase] at found
    split_ifs at found
    exact sound.pending other waiting found
  · intro first second waiting others found there
    simp only [Dict.get?_erase] at found there
    split_ifs at found there
    exact sound.apart first second waiting others found there
  · intro row member
    cases grown row member with
    | inl old => exact sound.queued row old
    | inr new => exact listed.2 row new
  · intro other waiting found row member inside
    simp only [Dict.get?_erase] at found
    split_ifs at found with different
    cases grown row inside with
    | inl old => exact sound.unsent other waiting found row member old
    | inr new => exact sound.apart other id waiting rows found known different row member new

end Lemmas

/-! What a step of the consumer keeps. -/

section Consumer

variable {ε : Type} {sessionId : String} {s : State ε}

/-- Only the stream changes, and its queue loses at most its first message. -/
theorem sound_stream (sound : Sound sessionId s) {stream : Stream ε} (shown : Shown s.rows stream)
    (queued : ∀ row ∈ stream.queued, row ∈ s.stream.queued)
    (subscribed : stream.phase = .listing true → stream.queue.isSome = true)
    (fresh : stream.phase.isLive = true → Fresh { s with stream := stream }) :
    Sound sessionId { s with stream := stream } :=
  { sound with
    shown := shown
    queued := fun row member => sound.queued row (queued row member)
    unsent := fun id rows found row member inside =>
      sound.unsent id rows found row member (queued row inside)
    subscribed := subscribed
    fresh := fresh }

/-- A live stream whose queue still holds the same entries above the same top. -/
theorem fresh_same (fresh : Fresh s) {stream : Stream ε} (subscribed : stream.queue.isSome = true)
    (queued : stream.queued = s.stream.queued) (top : stream.top = s.stream.top) :
    Fresh { s with stream := stream } := by
  refine ⟨subscribed, ?_, ?_, ?_⟩
  · show Ascending (stream.queued.filter fun row => decide (stream.top < row.seq))
    rw [queued, top]
    exact fresh.ascending
  · show ∀ row ∈ s.rows, stream.top < row.seq → row ∈ stream.queued ∨ _
    rw [queued, top]
    exact fresh.sent
  · show ∀ later ∈ stream.queued, stream.top < later.seq →
      ∀ row ∈ s.rows, stream.top < row.seq → row.seq < later.seq → row ∈ stream.queued
    rw [queued, top]
    exact fresh.dense

theorem shown_same {rows : List (LogRow ε)} {old new : Stream ε} (shown : Shown rows old)
    (entries : new.shown = old.shown) (top : new.top = old.top) (after : new.afterSeq = old.afterSeq)
    (answer : new.answer = old.answer)
    (unread : new.phase.unread = true → old.phase.unread = true ∧ new.lastSeq = old.lastSeq) :
    Shown rows new := by
  refine ⟨?_, ?_, ?_, ?_, ?_, ?_, ?_⟩
  · rw [entries]
    exact shown.ascending
  · rw [entries, top, after]
    exact shown.bounded
  · rw [entries, top, after]
    exact shown.complete
  · rw [top, after]
    exact shown.low
  · rw [top, after]
    exact shown.reached
  · intro now
    have before := unread now
    rw [entries, before.2, after]
    exact shown.unread before.1
  · rw [answer, top]
    exact shown.answered

/-- After the read everything in the log is shown. -/
theorem sound_list (sound : Sound sessionId s) {live : Bool}
    (phase : s.stream.phase = .listing live) :
    Sound sessionId { s with stream := { s.stream with
      phase := .replaying live (listAfter s.rows sessionId s.stream.lastSeq)
      answer := listAfter s.rows sessionId s.stream.lastSeq } } := by
  have before := sound.shown.unread (by rw [phase]; rfl)
  have none_ : s.stream.entries = [] := (List.append_eq_nil_iff.mp before.1).1
  have reaches : ∀ row ∈ listAfter s.rows sessionId s.stream.lastSeq, row.seq ≤
      ((listAfter s.rows sessionId s.stream.lastSeq).map LogRow.seq).foldl max s.stream.lastSeq :=
    fun row member => le_foldl_max_of_mem _ (List.mem_map_of_mem member)
  have listed : ∀ row ∈ s.rows, s.stream.afterSeq < row.seq →
      row ∈ listAfter s.rows sessionId s.stream.lastSeq := fun row member later =>
    mem_listAfter.mpr ⟨member, sound.session row member, by rw [before.2]; exact later⟩
  have everything : ∀ row ∈ s.rows, row.seq ≤
      ((listAfter s.rows sessionId s.stream.lastSeq).map LogRow.seq).foldl max s.stream.lastSeq := by
    intro row member
    by_cases later : s.stream.afterSeq < row.seq
    · exact reaches row (listed row member later)
    · have floor := le_foldl_max ((listAfter s.rows sessionId s.stream.lastSeq).map LogRow.seq)
        s.stream.lastSeq
      rw [before.2] at floor ⊢
      omega
  have shown : Shown s.rows { s.stream with
      phase := .replaying live (listAfter s.rows sessionId s.stream.lastSeq)
      answer := listAfter s.rows sessionId s.stream.lastSeq } := by
    have whole : Stream.shown { s.stream with
        phase := .replaying live (listAfter s.rows sessionId s.stream.lastSeq)
        answer := listAfter s.rows sessionId s.stream.lastSeq } =
          listAfter s.rows sessionId s.stream.lastSeq := by
      show s.stream.entries ++ listAfter s.rows sessionId s.stream.lastSeq = _
      rw [none_, List.nil_append]
    refine ⟨?_, ?_, ?_, ?_, ?_, nofun, reaches⟩
    · rw [whole]
      exact listAfter_ascending sound.ascending _
    · rw [whole]
      intro row member
      have above := (mem_listAfter.mp member).2.2
      exact ⟨by show s.stream.afterSeq < row.seq; rw [← before.2]; exact above, reaches row member⟩
    · rw [whole]
      exact fun row member later reached => listed row member later
    · show s.stream.afterSeq ≤ _
      rw [← before.2]
      exact le_foldl_max _ _
    · cases foldl_max_mem ((listAfter s.rows sessionId s.stream.lastSeq).map LogRow.seq)
        s.stream.lastSeq with
      | inl same => exact .inl (same.trans before.2)
      | inr moved =>
        obtain ⟨row, member, number⟩ := List.mem_map.mp moved
        exact .inr ⟨row, (mem_listAfter.mp member).1, number⟩
  refine sound_stream sound shown (fun row member => member) nofun ?_
  intro isLive
  have isLive : live = true := isLive
  subst isLive
  refine ⟨sound.subscribed phase, ?_, ?_, ?_⟩
  · have empty : (s.stream.queued.filter fun row => decide
        (((listAfter s.rows sessionId s.stream.lastSeq).map LogRow.seq).foldl max s.stream.lastSeq <
          row.seq)) = [] := by
      rw [List.filter_eq_nil_iff]
      intro row member
      have low := everything row (sound.queued row member)
      rw [decide_eq_true_eq]
      omega
    show Ascending (s.stream.queued.filter fun row => decide
      (((listAfter s.rows sessionId s.stream.lastSeq).map LogRow.seq).foldl max s.stream.lastSeq <
        row.seq))
    rw [empty]
    exact .nil
  · exact fun row member high => absurd (everything row member) (not_le.mpr high)
  · exact fun later queued high => absurd (everything later (sound.queued later queued))
      (not_le.mpr high)

/-- A live entry that is above the top is the next one. -/
theorem sound_receive_entry (sound : Sound sessionId s) {pendingResult : Bool} {drainBeats : Nat}
    {row : LogRow ε} {later : List (Message ε)}
    (phase : s.stream.phase = .following pendingResult drainBeats)
    (queue : s.stream.queue = some (.logEntry row :: later)) (high : s.stream.lastSeq < row.seq) :
    Sound sessionId { s with stream := { Stream.emit { s.stream with queue := some later }
      [.entry row] (.following pendingResult drainBeats) with lastSeq := row.seq } } := by
  generalize next : ({ Stream.emit { s.stream with queue := some later }
      [.entry row] (.following pendingResult drainBeats) with lastSeq := row.seq } : Stream ε) = stream
  have fresh := sound.fresh (by rw [phase]; rfl)
  have top : s.stream.top = s.stream.lastSeq := by rw [Stream.top, Stream.ahead, phase]; rfl
  have newTop : stream.top = row.seq := by rw [← next]; rfl
  have after : stream.afterSeq = s.stream.afterSeq := by rw [← next]; rfl
  have shownNow : s.stream.shown = s.stream.entries := by
    rw [Stream.shown, Stream.ahead, phase]
    exact List.append_nil _
  have shownNext : stream.shown = s.stream.shown ++ [row] := by
    rw [shownNow, ← next]
    simp [Stream.shown, Stream.entries, Stream.emit, Stream.ahead]
  have waiting : s.stream.queued = row :: stream.queued := by
    rw [← next]
    simp [Stream.queued, Stream.emit, queue]
  have inLog : row ∈ s.rows := sound.queued row (by rw [waiting]; exact .head _)
  have rising := fresh.ascending
  rw [waiting, List.filter_cons_of_pos (by simpa [top] using high)] at rising
  have less := List.pairwise_cons.mp rising
  -- The queue is dense above the top and rises, so no entry is missed below the received one.
  have shown : Shown s.rows stream := by
    refine ⟨?_, ?_, ?_, ?_, ?_, ?_, ?_⟩
    · rw [shownNext]
      refine List.pairwise_append.mpr ⟨sound.shown.ascending, List.pairwise_singleton _ _, ?_⟩
      intro old known new only
      have bound := (sound.shown.bounded old known).2
      rw [List.mem_singleton.mp only]
      omega
    · rw [shownNext, newTop, after]
      intro old known
      have floor := sound.shown.low
      cases List.mem_append.mp known with
      | inl before =>
        have bounds := sound.shown.bounded old before
        exact ⟨bounds.1, by omega⟩
      | inr only =>
        rw [List.mem_singleton.mp only]
        exact ⟨by omega, le_refl _⟩
    · rw [shownNext, newTop, after]
      intro old known above below
      by_cases early : old.seq ≤ s.stream.top
      · exact List.mem_append.mpr (.inl (sound.shown.complete old known above early))
      · refine List.mem_append.mpr (.inr (List.mem_singleton.mpr ?_))
        by_contra different
        have smaller : old.seq < row.seq := by
          refine lt_of_le_of_ne below fun same => different ?_
          exact eq_of_seq sound.ascending known inLog same
        have queued := fresh.dense row (by rw [waiting]; exact .head _) (by omega) old known
          (by omega) smaller
        rw [waiting] at queued
        have behind := (List.mem_cons.mp queued).resolve_left different
        have larger := less.1 old (List.mem_filter.mpr ⟨behind, by simpa using not_le.mp early⟩)
        omega
    · rw [newTop, after]
      have floor := sound.shown.low
      omega
    · rw [newTop]
      exact .inr ⟨row, inLog, rfl⟩
    · rw [← next]
      exact nofun
    · rw [newTop, ← next]
      intro old answered
      have bound := sound.shown.answered old answered
      omega
  have behind : ∀ old, old ∈ s.stream.queued → row.seq < old.seq → old ∈ stream.queued := by
    intro old queued larger
    rw [waiting] at queued
    refine (List.mem_cons.mp queued).resolve_left fun same => ?_
    rw [same] at larger
    omega
  refine sound_stream sound shown ?_ ?_ fun _ => ⟨?_, ?_, ?_, ?_⟩
  · intro old queued
    rw [waiting]
    exact .tail _ queued
  · rw [← next]
    exact nofun
  · show stream.queue.isSome = true
    rw [← next]
    rfl
  · show Ascending (stream.queued.filter fun old => decide (stream.top < old.seq))
    have narrowed := List.Pairwise.filter (fun old => decide (row.seq < old.seq)) less.2
    rw [List.filter_filter] at narrowed
    have same : (fun old : LogRow ε => decide (row.seq < old.seq) && decide (s.stream.top < old.seq)) =
        fun old => decide (row.seq < old.seq) := by
      funext old
      by_cases larger : row.seq < old.seq
      · have more : s.stream.top < old.seq := by omega
        simp [larger, more]
      · simp [larger]
    rw [newTop]
    rwa [same] at narrowed
  · intro old known larger
    have larger : row.seq < old.seq := newTop ▸ larger
    exact (fresh.sent old known (by omega)).imp_left fun queued => behind old queued larger
  · intro last queued larger old known low smaller
    have larger : row.seq < last.seq := newTop ▸ larger
    have low : row.seq < old.seq := newTop ▸ low
    have queued : last ∈ stream.queued := queued
    exact behind old (fresh.dense last (by rw [waiting]; exact .tail _ queued) (by omega) old known
      (by omega) smaller) low

/-- An entry that has been shown leaves the queue unseen. -/
theorem sound_receive_shown (sound : Sound sessionId s) {pendingResult : Bool} {drainBeats : Nat}
    {row : LogRow ε} {later : List (Message ε)}
    (phase : s.stream.phase = .following pendingResult drainBeats)
    (queue : s.stream.queue = some (.logEntry row :: later)) (low : ¬s.stream.lastSeq < row.seq) :
    Sound sessionId { s with stream := { s.stream with queue := some later } } := by
  generalize next : ({ s.stream with queue := some later } : Stream ε) = stream
  have fresh := sound.fresh (by rw [phase]; rfl)
  have top : s.stream.top = s.stream.lastSeq := by rw [Stream.top, Stream.ahead, phase]; rfl
  have sameTop : stream.top = s.stream.top := by rw [← next]; rfl
  have waiting : s.stream.queued = row :: stream.queued := by
    rw [← next]
    simp [Stream.queued, queue]
  have shown : Shown s.rows stream := by
    rw [← next]
    exact ⟨sound.shown.ascending, sound.shown.bounded, sound.shown.complete, sound.shown.low,
      sound.shown.reached, sound.shown.unread, sound.shown.answered⟩
  have behind : ∀ old, old ∈ s.stream.queued → s.stream.top < old.seq → old ∈ stream.queued := by
    intro old queued larger
    rw [waiting] at queued
    refine (List.mem_cons.mp queued).resolve_left fun same => ?_
    rw [same] at larger
    omega
  refine sound_stream sound shown ?_ ?_ fun _ => ⟨?_, ?_, ?_, ?_⟩
  · intro old queued
    rw [waiting]
    exact .tail _ queued
  · rw [← next, phase]
    exact nofun
  · show stream.queue.isSome = true
    rw [← next]
    rfl
  · show Ascending (stream.queued.filter fun old => decide (stream.top < old.seq))
    have rising := fresh.ascending
    rw [waiting, List.filter_cons_of_neg (by simpa [top] using low)] at rising
    rw [sameTop]
    exact rising
  · intro old known larger
    have larger : s.stream.top < old.seq := sameTop ▸ larger
    exact (fresh.sent old known larger).imp_left fun queued => behind old queued larger
  · intro last queued larger old known above smaller
    have larger : s.stream.top < last.seq := sameTop ▸ larger
    have above : s.stream.top < old.seq := sameTop ▸ above
    have queued : last ∈ stream.queued := queued
    exact behind old (fresh.dense last (by rw [waiting]; exact .tail _ queued) larger old known above
      smaller) above

/-- Nothing is shown, and nothing that matters leaves the queue. -/
theorem sound_quiet (sound : Sound sessionId s) {stream : Stream ε}
    (shown : stream.shown = s.stream.shown) (top : stream.top = s.stream.top)
    (after : stream.afterSeq = s.stream.afterSeq) (answer : stream.answer = s.stream.answer)
    (queued : stream.queued = s.stream.queued)
    (unread : stream.phase.unread = true →
      s.stream.phase.unread = true ∧ stream.lastSeq = s.stream.lastSeq)
    (listing : stream.phase ≠ .listing true)
    (live : stream.phase.isLive = true → s.stream.phase.isLive = true ∧ stream.queue.isSome = true) :
    Sound sessionId { s with stream := stream } := by
  refine sound_stream sound (shown_same sound.shown shown top after answer unread)
    (fun row member => queued ▸ member) (fun now => absurd now listing) ?_
  intro isLive
  exact fresh_same (sound.fresh (live isLive).1) (live isLive).2 queued top

/-- The events of the stream other than entries show nothing. -/
def silent (events : List (Event ε)) : Prop := ∀ row, .entry row ∉ events

theorem entries_emit_silent (stream : Stream ε) {events : List (Event ε)} (quiet : silent events)
    (phase : Phase ε) : (stream.emit events phase).entries = stream.entries := by
  have none_ : events.filterMap Event.row? = [] := by
    rw [List.filterMap_eq_nil_iff]
    intro event member
    cases event with
    | entry row => exact absurd member (quiet row)
    | _ => rfl
  unfold Stream.entries Stream.emit
  rw [List.filterMap_append, none_, List.append_nil]

/-- A stream that follows the channel, or ends, has only what it has yielded. -/
def Phase.settled : Phase ε → Bool
  | .following _ _ | .ended => true
  | _ => false

theorem shown_of_settled (stream : Stream ε) (settled : stream.phase.settled = true) :
    stream.shown = stream.entries ∧ stream.top = stream.lastSeq := by
  unfold Stream.shown Stream.top Stream.ahead
  cases phase : stream.phase with
  | following pendingResult drainBeats => exact ⟨List.append_nil _, rfl⟩
  | ended => exact ⟨List.append_nil _, rfl⟩
  | _ =>
    rw [phase] at settled
    cases settled

/-- Silent events of a stream that has read its answer to the end. -/
theorem sound_silent (sound : Sound sessionId s) {stream : Stream ε} {events : List (Event ε)}
    {phase : Phase ε} (quiet : silent events) (settled : phase.settled = true)
    (before : s.stream.shown = s.stream.entries ∧ s.stream.top = s.stream.lastSeq)
    (same : stream = { s.stream with queue := stream.queue })
    (queued : stream.queued = s.stream.queued)
    (live : phase.isLive = true → s.stream.phase.isLive = true ∧ stream.queue.isSome = true) :
    Sound sessionId { s with stream := stream.emit events phase } := by
  have after := shown_of_settled (stream.emit events phase) settled
  have entries : stream.entries = s.stream.entries := by rw [same]; rfl
  have lastSeq : stream.lastSeq = s.stream.lastSeq := by rw [same]
  refine sound_quiet sound ?_ ?_ ?_ ?_ queued ?_ ?_ live
  · rw [after.1, before.1, entries_emit_silent stream quiet, entries]
  · rw [after.2, before.2]
    exact lastSeq
  · show stream.afterSeq = _
    rw [same]
  · show stream.answer = _
    rw [same]
  · intro unread
    have now : phase.unread = true := unread
    cases phase with
    | following pendingResult drainBeats => cases now
    | ended => cases now
    | _ => cases settled
  · intro listing
    have now : phase = .listing true := listing
    rw [now] at settled
    cases settled

theorem sound_receive (sound : Sound sessionId s) {pendingResult : Bool} {drainBeats : Nat}
    {message : Message ε} {later : List (Message ε)}
    (phase : s.stream.phase = .following pendingResult drainBeats)
    (queue : s.stream.queue = some (message :: later)) :
    Sound sessionId { s with
      stream := { s.stream with queue := some later }.receive pendingResult drainBeats message } := by
  have before := shown_of_settled s.stream (by rw [phase]; rfl)
  have isLive : s.stream.phase.isLive = true := by rw [phase]; rfl
  -- A message that is no entry leaves the entries of the queue as they are.
  have quiet : message.row? = none → ∀ events phase, silent events → phase.settled = true →
      Sound sessionId { s with
        stream := Stream.emit { s.stream with queue := some later } events phase } := by
    intro noRow events phase silent_ settled
    refine sound_silent sound silent_ settled before rfl ?_ fun _ => ⟨isLive, rfl⟩
    simp [Stream.queued, queue, noRow]
  have still : message.row? = none →
      Sound sessionId { s with stream := { s.stream with queue := some later } } := by
    intro noRow
    have same := quiet noRow [] s.stream.phase nofun (by rw [phase]; rfl)
    unfold Stream.emit at same
    rwa [List.append_nil] at same
  cases message with
  | logEntry row =>
    simp only [Stream.receive]
    split_ifs with high
    · exact sound_receive_entry sound phase queue high
    · exact sound_receive_shown sound phase queue high
  | logDelta => exact quiet rfl _ _ (by simp [silent]) rfl
  | logTurnComplete =>
    simp only [Stream.receive]
    split_ifs
    · exact quiet rfl _ _ (by simp [silent]) rfl
    · exact still rfl
  | askUserQuestion => exact quiet rfl _ _ (by simp [silent]) rfl
  | runtimeStatus terminal =>
    simp only [Stream.receive]
    split_ifs
    · exact quiet rfl _ _ (by simp [silent]) rfl
    · exact still rfl
  | result =>
    have same := quiet rfl [] (.following true drainBeats) nofun rfl
    unfold Stream.emit at same
    rwa [List.append_nil] at same
  | other => exact still rfl

theorem sound_heartbeat (sound : Sound sessionId s) {pendingResult running : Bool} {drainBeats : Nat}
    (phase : s.stream.phase = .following pendingResult drainBeats)
    (subscribed : s.stream.queue.isSome = true) :
    Sound sessionId { s with stream := s.stream.heartbeat pendingResult drainBeats running } := by
  have before := shown_of_settled s.stream (by rw [phase]; rfl)
  have isLive : s.stream.phase.isLive = true := by rw [phase]; rfl
  have ends : Sound sessionId { s with stream := s.stream.emit [.status] .ended } :=
    sound_silent sound (by simp [silent]) rfl before rfl rfl fun _ => ⟨isLive, subscribed⟩
  unfold Stream.heartbeat
  split_ifs
  · exact ends
  · have same : Sound sessionId { s with
        stream := s.stream.emit [] (.following pendingResult (drainBeats + 1)) } :=
      sound_silent sound nofun rfl before rfl rfl fun _ => ⟨isLive, subscribed⟩
    unfold Stream.emit at same
    rwa [List.append_nil] at same
  · exact sound
  · exact ends

theorem sound_streamStep (sound : Sound sessionId s) {next : Step ε} {stream : Stream ε}
    (stepped : streamStep sessionId s.rows s.stream next = some stream) :
    Sound sessionId { s with stream := stream } := by
  unfold streamStep at stepped
  split at stepped
  case h_1 running =>
    split at stepped
    case h_1 phase =>
      rw [← Option.some.inj stepped]
      have ahead : s.stream.ahead = [] := by rw [Stream.ahead, phase]
      refine sound_stream sound ?_ (fun row member => member) ?_ ?_
      · cases running
        · refine shown_same sound.shown ?_ ?_ rfl rfl fun _ => ⟨by rw [phase]; rfl, rfl⟩
          · rw [Stream.shown, Stream.shown, ahead]; rfl
          · rw [Stream.top, Stream.top, ahead]; rfl
        · refine shown_same sound.shown ?_ ?_ rfl rfl fun _ => ⟨by rw [phase]; rfl, rfl⟩
          · rw [Stream.shown, Stream.shown, ahead]; rfl
          · rw [Stream.top, Stream.top, ahead]; rfl
      · cases running <;> exact nofun
      · cases running <;> exact nofun
    case h_2 => cases stepped
  case h_2 =>
    split at stepped
    case h_1 phase =>
      rw [← Option.some.inj stepped]
      have ahead : s.stream.ahead = [] := by rw [Stream.ahead, phase]
      refine sound_stream sound ?_ nofun (fun _ => rfl) nofun
      refine shown_same sound.shown ?_ ?_ rfl rfl fun _ => ⟨by rw [phase]; rfl, rfl⟩
      · rw [Stream.shown, Stream.shown, ahead]; rfl
      · rw [Stream.top, Stream.top, ahead]; rfl
    case h_2 => cases stepped
  case h_3 =>
    split at stepped
    case h_1 live phase =>
      rw [← Option.some.inj stepped]
      exact sound_list sound phase
    case h_2 => cases stepped
  case h_4 =>
    split at stepped
    case h_1 live row rest phase =>
      rw [← Option.some.inj stepped]
      refine sound_quiet sound ?_ ?_ rfl rfl rfl nofun nofun ?_
      · simp [Stream.shown, Stream.entries, Stream.emit, Stream.ahead, phase]
      · simp [Stream.top, Stream.emit, Stream.ahead, phase]
      · intro isLive
        have isLive : live = true := isLive
        have before : s.stream.phase.isLive = true := by rw [phase, isLive]; rfl
        exact ⟨before, (sound.fresh before).subscribed⟩
    case h_2 => cases stepped
  case h_5 questions running =>
    split at stepped
    case h_1 phase =>
      rw [← Option.some.inj stepped]
      have before : s.stream.shown = s.stream.entries ∧ s.stream.top = s.stream.lastSeq := by
        rw [Stream.shown, Stream.top, Stream.ahead, phase]
        exact ⟨List.append_nil _, rfl⟩
      exact sound_silent sound (by simp [silent]) rfl before rfl rfl nofun
    case h_2 phase =>
      have before : s.stream.shown = s.stream.entries ∧ s.stream.top = s.stream.lastSeq := by
        rw [Stream.shown, Stream.top, Stream.ahead, phase]
        exact ⟨List.append_nil _, rfl⟩
      have isLive : s.stream.phase.isLive = true := by rw [phase]; rfl
      simp only at stepped
      split_ifs at stepped
      · rw [← Option.some.inj stepped]
        exact sound_silent sound (by simp [silent]) rfl before rfl rfl
          fun _ => ⟨isLive, (sound.fresh isLive).subscribed⟩
      · rw [← Option.some.inj stepped]
        exact sound_silent sound (by simp [silent]) rfl before rfl rfl nofun
    case h_3 => cases stepped
  case h_6 =>
    split at stepped
    case h_1 pendingResult drainBeats message later phase queue =>
      rw [← Option.some.inj stepped]
      exact sound_receive sound phase queue
    case h_2 => cases stepped
  case h_7 running =>
    split at stepped
    case h_1 pendingResult drainBeats phase queue =>
      rw [← Option.some.inj stepped]
      exact sound_heartbeat sound phase (by rw [queue]; rfl)
    case h_2 => cases stepped
  case h_8 =>
    split at stepped
    case h_1 phase =>
      have before := shown_of_settled s.stream (by rw [phase]; rfl)
      rw [← Option.some.inj stepped]
      have same : Sound sessionId { s with stream := s.stream.emit [] .ended } :=
        sound_silent sound nofun rfl before rfl rfl nofun
      unfold Stream.emit at same
      rwa [List.append_nil] at same
    case h_2 => cases stepped
  case h_9 => cases stepped

end Consumer

section Run

variable {ε : Type} [DecidableEq ε]

theorem sound_step {sessionId : String} {s t : State ε} {next : Step ε} (sound : Sound sessionId s)
    (ordered : inOrder s next = true) (stepped : step sessionId s next = some t) :
    Sound sessionId t := by
  unfold step at stepped
  split at stepped
  case h_1 id entries clientKey =>
    split at stepped
    · cases stepped
    · rename_i unused
      rw [← Option.some.inj stepped]
      exact sound_commit sound ((Dict.get?_eq_none_iff s.appends id).mpr unused)
  case h_2 id =>
    obtain ⟨rows, known, sent⟩ := Option.map_eq_some_iff.mp stepped
    rw [← sent]
    exact sound_broadcast sound known ordered
  case h_3 => cases stepped
  case h_4 message entry =>
    rw [← Option.some.inj stepped]
    refine sound_announce sound ?_
    cases message with
    | logEntry row => exact absurd rfl (entry row)
    | _ => rfl
  case h_5 =>
    obtain ⟨stream, moved, same⟩ := Option.map_eq_some_iff.mp stepped
    rw [← same]
    exact sound_streamStep sound moved

/-- The entries that the stream has yielded have rising numbers and leave out no entry of the log
between the cursor and the last of them. -/
def GapFree (s : State ε) : Prop :=
  Ascending s.stream.entries ∧ ∀ shown ∈ s.stream.entries, ∀ row ∈ s.rows,
    s.stream.afterSeq < row.seq → row.seq ≤ shown.seq → row ∈ s.stream.entries

theorem gapFree_of_sound {sessionId : String} {s : State ε} (sound : Sound sessionId s) :
    GapFree s := by
  have parts := List.pairwise_append.mp sound.shown.ascending
  refine ⟨parts.1, ?_⟩
  intro shown yielded row member after upTo
  have bound := (sound.shown.bounded shown (List.mem_append.mpr (.inl yielded))).2
  have inside := sound.shown.complete row member after (upTo.trans bound)
  cases List.mem_append.mp inside with
  | inl entry => exact entry
  | inr ahead =>
    have less := parts.2.2 shown yielded row ahead
    omega

/-- If no broadcast overtakes an earlier entry that the stream depends on, the stream has no gaps. -/
theorem entry_stream_gap_free (sessionId : String) (afterSeq : Int) (steps : List (Step ε))
    (s : State ε) (all : allSteps (step sessionId) inOrder steps (.start afterSeq) = true)
    (ran : runSteps (step sessionId) steps (.start afterSeq) = some s) : GapFree s :=
  gapFree_of_sound (runSteps_induct_of
    (fun _ _ _ sound ordered stepped => sound_step sound ordered stepped)
    (sound_start afterSeq) all ran)

/-- An entry is committed and read, and the next one comes over the channel. -/
private def replayThenLive : List (Step String) :=
  [.commit 0 ["user"] none, .begin true, .subscribe, .list, .broadcast 0, .yield, .settle 0 true,
    .commit 1 ["assistant", "tool"] none, .broadcast 1, .receive, .receive, .receive]

private theorem replayThenLive_run :
    (runSteps (step "s") replayThenLive (.start (-1))).isSome := by decide

theorem entry_stream_gap_free_live :
    ∃ s, runSteps (step "s") replayThenLive (.start (-1)) = some s ∧ GapFree s :=
  ⟨_, (Option.some_get replayThenLive_run).symm,
    entry_stream_gap_free "s" (-1) replayThenLive _ (by decide)
      (Option.some_get replayThenLive_run).symm⟩

/-- Two messages are committed; the second one is delivered and broadcast first. -/
private def overtakes : List (Step String) :=
  [.begin true, .subscribe, .list, .settle 0 true, .commit 0 ["first"] none,
    .commit 1 ["second"] none, .broadcast 1, .broadcast 0, .receive, .receive]

private theorem overtakes_run :
    (runSteps (step "s") overtakes (.start (-1))).isSome := by decide

/-- The first entry is in the log, the stream has shown a later one, and it never shows the first. -/
theorem overtaken_entry_is_skipped :
    ∃ s, runSteps (step "s") overtakes (.start (-1)) = some s ∧ s.stream.queue = some [] ∧
      ¬GapFree s := by
  refine ⟨_, (Option.some_get overtakes_run).symm, by decide, ?_⟩
  intro gapFree
  have missing := gapFree.2 ⟨"s", 1, "second", none, 1⟩ (by decide) ⟨"s", 0, "first", none, 0⟩
    (by decide) (by decide) (by decide)
  revert missing
  decide

end Run

end ArcReel.Agent.EntryStream
