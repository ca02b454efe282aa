import ArcReel.Events.SseChannel

/-! What a subscriber of a channel is handed: no critical item is missing from it without its stream
ending there. -/

namespace ArcReel.Events.Sse
open ArcReel.Lib

section Queues

variable {α β : Type} {isCritical : Message α → Bool}

namespace AsyncQueue

/-- No more lies in the queue than it may hold. -/
def Within (queue : AsyncQueue β) : Prop :=
  queue.maxsize ≤ 0 ∨ (queue.items.length : Int) ≤ queue.maxsize

theorem putNowait_eq_some {queue queue' : AsyncQueue β} {b : β} (put : queue.putNowait b = some queue') :
    queue' = { queue with items := queue.items ++ [b] } ∧ queue'.Within := by
  unfold putNowait at put
  split_ifs at put with isFull
  cases put
  refine ⟨rfl, ?_⟩
  simp only [full, Bool.and_eq_true, decide_eq_true_eq, not_and] at isFull
  simp only [Within, List.length_append, List.length_singleton]
  omega

theorem putAll_items {queue : AsyncQueue β} (rest : List β)
    (room : queue.maxsize ≤ 0 ∨ ((queue.items.length + rest.length : Nat) : Int) ≤ queue.maxsize) :
    queue.putAll rest = { queue with items := queue.items ++ rest } := by
  induction rest generalizing queue with
  | nil => rw [putAll, List.append_nil]
  | cons b rest ih =>
    have open' : queue.full = false := by
      simp only [full, Bool.and_eq_false_iff, decide_eq_false_iff_not]
      simp only [List.length_cons] at room
      omega
    simp only [putAll, putNowait, open', Bool.false_eq_true, if_false]
    rw [ih, List.append_assoc]
    · rfl
    · simp only [List.length_append, List.length_cons, List.length_nil] at room ⊢
      omega

end AsyncQueue

variable (isCritical) in
theorem putBack_true (messages : List (Message α)) : putBack isCritical true messages = messages := by
  induction messages with
  | nil => rfl
  | cons msg rest ih => rw [putBack, Bool.not_true, Bool.false_and, if_neg nofun, ih]

variable (isCritical) in
/-- Putting back leaves out one item that is not critical, or nothing where all items are. -/
theorem putBack_false (waiting : List α) :
    ((∀ a ∈ waiting, isCritical (.item a) = true) ∧
        putBack isCritical false (waiting.map .item) = waiting.map .item) ∨
      ∃ rest, putBack isCritical false (waiting.map .item) = rest.map .item ∧
        rest.length + 1 = waiting.length ∧ Thinned (fun a => isCritical (.item a)) rest waiting := by
  induction waiting with
  | nil => exact .inl ⟨nofun, rfl⟩
  | cons a waiting ih =>
    cases critical : isCritical (.item a) with
    | false =>
      apply Or.inr
      refine ⟨waiting, ?_, rfl, .drop critical (.refl _)⟩
      rw [List.map_cons, putBack, critical]
      exact putBack_true isCritical _
    | true =>
      have here : putBack isCritical false ((a :: waiting).map .item) =
          .item a :: putBack isCritical false (waiting.map .item) := by
        rw [List.map_cons, putBack, critical]
        rfl
      rw [here]
      cases ih with
      | inl all =>
        apply Or.inl
        exact ⟨List.forall_mem_cons.mpr ⟨critical, all.1⟩, by rw [all.2]; rfl⟩
      | inr evicted =>
        obtain ⟨rest, back, shorter, thinned⟩ := evicted
        apply Or.inr
        exact ⟨a :: rest, by rw [back]; rfl, by rw [List.length_cons, shorter]; rfl, .keep a thinned⟩

theorem evictOneNonCritical_items {queue : AsyncQueue (Message α)} {left : List (Message α)}
    (within : queue.Within) (back : putBack isCritical false queue.items = left)
    (shorter : left.length ≤ queue.items.length) :
    evictOneNonCritical isCritical queue = { queue with items := left } := by
  rw [evictOneNonCritical, AsyncQueue.putAll_items, back, List.nil_append]
  rw [back, List.length_nil, Nat.zero_add]
  unfold AsyncQueue.Within at within
  have bound : (left.length : Int) ≤ queue.items.length := Int.ofNat_le.mpr shorter
  show queue.maxsize ≤ 0 ∨ (left.length : Int) ≤ queue.maxsize
  omega

variable (isCritical) in
/-- Delivery either keeps the subscriber, with only non-critical items left out, or finds a queue full
of critical items. -/
theorem deliver_spec {queue : AsyncQueue (Message α)} {waiting : List α} (a : α)
    (within : queue.Within) (holds : queue.items = waiting.map .item) :
    ((deliver isCritical queue a).1 = true ∧ (deliver isCritical queue a).2.Within ∧
        ∃ waiting', (deliver isCritical queue a).2.items = waiting'.map .item ∧
          Thinned (fun a => isCritical (.item a)) waiting' (waiting ++ [a])) ∨
      ((deliver isCritical queue a).1 = false ∧
        ∃ first rest, waiting = first :: rest ∧ isCritical (.item first) = true) := by
  unfold deliver
  cases put : queue.putNowait (.item a) with
  | some queue' =>
    obtain ⟨same, within'⟩ := AsyncQueue.putNowait_eq_some put
    apply Or.inl
    exact ⟨rfl, within', waiting ++ [a], by rw [same, List.map_append, ← holds]; rfl, .refl _⟩
  | none =>
    cases critical : isCritical (.item a) with
    | false =>
      apply Or.inl
      refine ⟨rfl, within, waiting, holds, ?_⟩
      simpa only [List.append_nil] using (Thinned.refl waiting).append (.drop critical .nil)
    | true =>
      have isFull : queue.full = true := by
        unfold AsyncQueue.putNowait at put
        split_ifs at put with isFull
        exact isFull
      rw [if_pos rfl]
      cases putBack_false isCritical waiting with
      | inl all =>
        rw [← holds] at all
        have kept := evictOneNonCritical_items within all.2 (le_refl _)
        have stuck : (evictOneNonCritical isCritical queue).putNowait (.item a) = none := by
          rw [kept]
          exact put
        rw [stuck]
        apply Or.inr
        refine ⟨rfl, ?_⟩
        cases waiting with
        | nil =>
          simp only [AsyncQueue.full, holds, Bool.and_eq_true, decide_eq_true_eq] at isFull
          simp only [List.map_nil, List.length_nil] at isFull
          omega
        | cons first rest => exact ⟨first, rest, rfl, all.1 first (.head _)⟩
      | inr evicted =>
        obtain ⟨rest, back, shorter, thinned⟩ := evicted
        rw [← holds] at back
        have lengths : queue.items.length = waiting.length := by rw [holds, List.length_map]
        have kept := evictOneNonCritical_items within back (by rw [List.length_map]; omega)
        have room : (evictOneNonCritical isCritical queue).full = false := by
          rw [kept]
          simp only [AsyncQueue.full, List.length_map, Bool.and_eq_false_iff, decide_eq_false_iff_not]
          unfold AsyncQueue.Within at within
          omega
        have put' : (evictOneNonCritical isCritical queue).putNowait (.item a) =
            some { queue with items := rest.map .item ++ [.item a] } := by
          rw [AsyncQueue.putNowait, room, kept]
          rfl
        rw [put']
        apply Or.inl
        exact ⟨rfl, (AsyncQueue.putNowait_eq_some put').2, rest ++ [a], by rw [List.map_append]; rfl,
          thinned.append (.refl _)⟩

theorem finalizeRemoval_items (queue : AsyncQueue (Message α)) :
    (finalizeRemoval queue).items = [.endOfStream] := by
  rw [finalizeRemoval, AsyncQueue.putAll_items]
  · rfl
  · show queue.maxsize ≤ 0 ∨ ((0 + 1 : Nat) : Int) ≤ queue.maxsize
    omega

end Queues

namespace SseChannel

variable {α : Type} {isCritical : Message α → Bool}

section Broadcast

theorem deliverAll_cons (a : α) (first : Nat) (rest : List Nat) (channel : SseChannel α) :
    deliverAll isCritical a (first :: rest) channel =
      (if (deliver isCritical (channel.queues first) a).1 then
          (deliverAll isCritical a rest
            (channel.setQueue first (deliver isCritical (channel.queues first) a).2)).1
        else first :: (deliverAll isCritical a rest
          (channel.setQueue first (deliver isCritical (channel.queues first) a).2)).1,
        (deliverAll isCritical a rest
          (channel.setQueue first (deliver isCritical (channel.queues first) a).2)).2) := rfl

variable (isCritical) in
theorem deliverAll_spec (a : α) {listed : List Nat} (distinct : listed.Nodup) (channel : SseChannel α) :
    (deliverAll isCritical a listed channel).1 =
        listed.filter (fun k => !(deliver isCritical (channel.queues k) a).1) ∧
      (deliverAll isCritical a listed channel).2.subscribers = channel.subscribers ∧
      (deliverAll isCritical a listed channel).2.finished = channel.finished ∧
      (deliverAll isCritical a listed channel).2.opened = channel.opened ∧
      ∀ k, (deliverAll isCritical a listed channel).2.queues k =
        if k ∈ listed then (deliver isCritical (channel.queues k) a).2 else channel.queues k := by
  induction listed generalizing channel with
  | nil => exact ⟨rfl, rfl, rfl, rfl, fun _ => rfl⟩
  | cons first rest ih =>
    obtain ⟨absent, distinct'⟩ := List.nodup_cons.mp distinct
    obtain ⟨stale, subscribers, finished, opened, queues⟩ :=
      ih distinct' (channel.setQueue first (deliver isCritical (channel.queues first) a).2)
    have others : ∀ k ∈ rest, (channel.setQueue first (deliver isCritical (channel.queues first) a).2).queues k =
        channel.queues k := by
      intro k inside
      apply Function.update_of_ne
      intro same
      exact absent (same ▸ inside)
    refine ⟨?_, subscribers, finished, opened, ?_⟩
    · rw [deliverAll_cons, List.filter_cons, stale]
      rw [List.filter_congr fun k inside => by rw [others k inside]]
      cases (deliver isCritical (channel.queues first) a).1 <;> rfl
    · intro k
      rw [deliverAll_cons, queues k]
      by_cases here : k ∈ rest
      · rw [if_pos here, if_pos (.tail _ here), others k here]
      · rw [if_neg here]
        by_cases isFirst : k = first
        · rw [isFirst, if_pos (.head _)]
          exact Function.update_self _ _ _
        · rw [if_neg (by rw [List.mem_cons, not_or]; exact ⟨isFirst, here⟩)]
          exact Function.update_of_ne isFirst _ _

theorem removeStale_spec {stale : List Nat} (distinct : stale.Nodup) (channel : SseChannel α) :
    (stale.foldl removeStale channel).finished = channel.finished ∧
      (stale.foldl removeStale channel).opened = channel.opened ∧
      (∀ k, k ∈ (stale.foldl removeStale channel).subscribers ↔ k ∈ channel.subscribers ∧ k ∉ stale) ∧
      ∀ k, (stale.foldl removeStale channel).queues k =
        if k ∈ stale then finalizeRemoval (channel.queues k) else channel.queues k := by
  induction stale generalizing channel with
  | nil => exact ⟨rfl, rfl, fun k => by simp, fun _ => rfl⟩
  | cons first rest ih =>
    obtain ⟨absent, distinct'⟩ := List.nodup_cons.mp distinct
    obtain ⟨finished, opened, subscribers, queues⟩ := ih distinct' (channel.removeStale first)
    refine ⟨finished, opened, ?_, ?_⟩
    · intro k
      rw [List.foldl_cons, subscribers k]
      have erased : k ∈ (channel.removeStale first).subscribers ↔ k ≠ first ∧ k ∈ channel.subscribers :=
        channel.distinct.mem_erase_iff
      rw [erased, List.mem_cons, not_or]
      tauto
    · intro k
      rw [List.foldl_cons, queues k]
      by_cases isFirst : k = first
      · rw [isFirst, if_neg absent, if_pos (.head _)]
        exact Function.update_self _ _ _
      · have same : (channel.removeStale first).queues k = channel.queues k :=
          Function.update_of_ne isFirst _ _
        simp only [same, List.mem_cons, isFirst, false_or]

variable (isCritical) in
/-- What a broadcast does to one queue. -/
theorem broadcast_spec (channel : SseChannel α) (a : α) :
    (channel.broadcast isCritical a).finished = channel.finished ∧
      (channel.broadcast isCritical a).opened = channel.opened ∧
      (∀ k, k ∈ (channel.broadcast isCritical a).subscribers ↔
        k ∈ channel.subscribers ∧ (deliver isCritical (channel.queues k) a).1 = true) ∧
      ∀ k, (channel.broadcast isCritical a).queues k =
        if k ∈ channel.subscribers then
          if (deliver isCritical (channel.queues k) a).1 then (deliver isCritical (channel.queues k) a).2
          else finalizeRemoval (deliver isCritical (channel.queues k) a).2
        else channel.queues k := by
  obtain ⟨stale, subscribers, finished, opened, queues⟩ :=
    deliverAll_spec isCritical a channel.distinct channel
  have distinct : (deliverAll isCritical a channel.subscribers channel).1.Nodup := by
    rw [stale]
    exact channel.distinct.filter _
  obtain ⟨finished', opened', subscribers', queues'⟩ :=
    removeStale_spec distinct (deliverAll isCritical a channel.subscribers channel).2
  refine ⟨finished'.trans finished, opened'.trans opened, ?_, ?_⟩
  · intro k
    rw [broadcast, subscribers' k, subscribers, stale, List.mem_filter, Bool.not_eq_true']
    cases (deliver isCritical (channel.queues k) a).1 <;> simp
  · intro k
    rw [broadcast, queues' k, queues k, stale]
    simp only [List.mem_filter, Bool.not_eq_true']
    by_cases inside : k ∈ channel.subscribers
    · cases (deliver isCritical (channel.queues k) a).1 <;> simp [inside]
    · simp [inside]

end Broadcast

section Following

variable (isCritical) in
/-- A subscriber whose stream is open: what it was handed and what waits for it are the items so far,
apart from non-critical ones. -/
structure Open (channel : SseChannel α) (k : Nat) (items out waiting : List α) : Prop where
  subscribed : k ∈ channel.subscribers
  running : channel.finished k = false
  within : (channel.queues k).Within
  holds : (channel.queues k).items = waiting.map .item
  thinned : Thinned (fun a => isCritical (.item a)) (out ++ waiting) items

/-- A subscriber whose stream has ended, or ends with its next message. -/
structure Cut (channel : SseChannel α) (k : Nat) : Prop where
  removed : k ∉ channel.subscribers
  earlier : k < channel.opened
  ended : channel.finished k = true ∨ (channel.queues k).items = [.endOfStream]

/-- The items before the first critical one that is missing. -/
def CutShort (isCritical : Message α → Bool) (items out : List α) : Prop :=
  ∃ before lost after, items = before ++ lost :: after ∧ isCritical (.item lost) = true ∧
    Thinned (fun a => isCritical (.item a)) out before

variable (isCritical) in
def Following (channel : SseChannel α) (k : Nat) (items out : List α) : Prop :=
  (∃ waiting, Open isCritical channel k items out waiting) ∨ (Cut channel k ∧ CutShort isCritical items out)

theorem CutShort.append {items out : List α} (cut : CutShort isCritical items out) (more : List α) :
    CutShort isCritical (items ++ more) out := by
  obtain ⟨before, lost, after, same, critical, thinned⟩ := cut
  exact ⟨before, lost, after ++ more, by rw [same, List.append_assoc, List.cons_append], critical, thinned⟩

theorem next_rest (channel : SseChannel α) (j : Nat) :
    (channel.next j).2.subscribers = channel.subscribers ∧ (channel.next j).2.opened = channel.opened ∧
      ∀ k, k ≠ j → (channel.next j).2.queues k = channel.queues k ∧
        (channel.next j).2.finished k = channel.finished k := by
  unfold next
  split_ifs
  · exact ⟨rfl, rfl, fun _ _ => ⟨rfl, rfl⟩⟩
  · split
    · exact ⟨rfl, rfl, fun _ _ => ⟨rfl, rfl⟩⟩
    · split
      · exact ⟨rfl, rfl, fun k other => ⟨Function.update_of_ne other _ _, rfl⟩⟩
      · exact ⟨rfl, rfl, fun k other =>
          ⟨Function.update_of_ne other _ _, Function.update_of_ne other _ _⟩⟩

theorem yields_next_other (channel : SseChannel α) {j k : Nat} (other : k ≠ j) :
    yields k ((channel.next j).1.map (j, ·)).toList = [] := by
  cases (channel.next j).1 with
  | none => rfl
  | some output =>
    cases output with
    | yielded a => simp [yields, other.symm]
    | idle => rfl
    | returned => rfl

theorem next_finished {channel : SseChannel α} {k : Nat} (finished : channel.finished k = true) :
    channel.next k = (none, channel) := if_pos finished

theorem next_end {channel : SseChannel α} {k : Nat} (running : channel.finished k = false)
    (holds : (channel.queues k).items = [.endOfStream]) :
    (channel.next k).1 = some .returned ∧ (channel.next k).2.finished k = true := by
  unfold next
  rw [if_neg (by rw [running]; nofun), holds]
  exact ⟨rfl, Function.update_self _ _ _⟩

variable (isCritical) in
/-- A cut stream hands out nothing any more. -/
theorem Cut.step {channel : SseChannel α} {k : Nat} (cut : Cut channel k) (s : Step α) :
    Cut (channel.step isCritical s).2 k ∧ yields k (channel.step isCritical s).1.toList = [] := by
  cases s with
  | subscribe hookRaises =>
    refine ⟨?_, rfl⟩
    have other : k ≠ channel.opened := Nat.ne_of_lt cut.earlier
    have queues : Function.update channel.queues channel.opened ⟨channel.queueMaxsize, []⟩ k =
        channel.queues k := Function.update_of_ne other _ _
    have finished : Function.update channel.finished channel.opened false k = channel.finished k :=
      Function.update_of_ne other _ _
    simp only [SseChannel.step, subscribe]
    split
    · exact ⟨cut.removed, Nat.lt_succ_of_lt cut.earlier, by simpa only [queues, finished] using cut.ended⟩
    · refine ⟨?_, Nat.lt_succ_of_lt cut.earlier, by simpa only [queues, finished] using cut.ended⟩
      rw [List.mem_cons, not_or]
      exact ⟨other, cut.removed⟩
  | unsubscribe j =>
    exact ⟨⟨fun inside => cut.removed (List.mem_of_mem_erase inside), cut.earlier, cut.ended⟩, rfl⟩
  | broadcast a =>
    obtain ⟨finished, opened, subscribers, queues⟩ := broadcast_spec isCritical channel a
    refine ⟨⟨fun inside => cut.removed ((subscribers k).mp inside).1, ?_, ?_⟩, rfl⟩
    · exact opened ▸ cut.earlier
    · show (channel.broadcast isCritical a).finished k = true ∨
        ((channel.broadcast isCritical a).queues k).items = _
      rw [finished, queues k, if_neg cut.removed]
      exact cut.ended
  | next j =>
    obtain ⟨subscribers, opened, others⟩ := next_rest channel j
    have removed : k ∉ (channel.next j).2.subscribers := subscribers ▸ cut.removed
    have earlier : k < (channel.next j).2.opened := opened ▸ cut.earlier
    by_cases same : k = j
    · subst same
      cases running : channel.finished k with
      | true =>
        simp only [SseChannel.step, next_finished running]
        exact ⟨cut, rfl⟩
      | false =>
        cases cut.ended with
        | inl finished => rw [running] at finished; cases finished
        | inr holds =>
          obtain ⟨output, finished⟩ := next_end running holds
          simp only [SseChannel.step, output]
          exact ⟨⟨removed, earlier, .inl finished⟩, rfl⟩
    · obtain ⟨queues, finished⟩ := others k same
      refine ⟨⟨removed, earlier, ?_⟩, yields_next_other channel same⟩
      show (channel.next j).2.finished k = true ∨ ((channel.next j).2.queues k).items = _
      rw [queues, finished]
      exact cut.ended
  | timeout j =>
    refine ⟨cut, ?_⟩
    simp only [SseChannel.step]
    split_ifs <;> rfl

theorem Open.broadcast {channel : SseChannel α} {k : Nat} {items out waiting : List α}
    (isOpen : Open isCritical channel k items out waiting) (a : α) :
    Following isCritical (channel.broadcast isCritical a) k (items ++ [a]) out := by
  obtain ⟨finished, opened, subscribers, queues⟩ := broadcast_spec isCritical channel a
  have here := queues k
  rw [if_pos isOpen.subscribed] at here
  cases deliver_spec isCritical a isOpen.within isOpen.holds with
  | inl delivered =>
    obtain ⟨stays, within, waiting', holds, thinned⟩ := delivered
    rw [if_pos stays] at here
    apply Or.inl
    refine ⟨waiting', (subscribers k).mpr ⟨isOpen.subscribed, stays⟩, ?_, ?_, ?_, ?_⟩
    · rw [finished]
      exact isOpen.running
    · rw [here]
      exact within
    · rw [here]
      exact holds
    · have longer := isOpen.thinned.append (.refl [a])
      rw [List.append_assoc] at longer
      exact ((Thinned.refl out).append thinned).trans longer
  | inr overflown =>
    obtain ⟨leaves, first, rest, same, critical⟩ := overflown
    rw [if_neg (by rw [leaves]; nofun)] at here
    apply Or.inr
    refine ⟨⟨?_, ?_, .inr ?_⟩, CutShort.append ?_ [a]⟩
    · intro inside
      have stays := ((subscribers k).mp inside).2
      rw [leaves] at stays
      cases stays
    · rw [opened]
      exact channel.earlier k isOpen.subscribed
    · rw [here]
      exact finalizeRemoval_items _
    · have thinned := isOpen.thinned
      rw [same] at thinned
      obtain ⟨before, after, split, early, -⟩ := thinned.split
      exact ⟨before, first, after, split, critical, early⟩

theorem Open.next {channel : SseChannel α} {k : Nat} {items out waiting : List α}
    (isOpen : Open isCritical channel k items out waiting) :
    ∃ waiting', Open isCritical (channel.next k).2 k items
      (out ++ yields k ((channel.next k).1.map (k, ·)).toList) waiting' := by
  have holds := isOpen.holds
  have here : channel.next k = match (channel.queues k).items with
      | [] => (none, channel)
      | .item a :: rest => (some (.yielded a), channel.setQueue k { channel.queues k with items := rest })
      | .endOfStream :: rest =>
        (some .returned, { channel.setQueue k { channel.queues k with items := rest } with
          finished := Function.update channel.finished k true }) := by
    unfold SseChannel.next
    rw [if_neg (by rw [isOpen.running]; nofun)]
    cases (channel.queues k).items with
    | nil => rfl
    | cons msg rest => cases msg <;> rfl
  cases waiting with
  | nil =>
    rw [here, holds]
    refine ⟨[], isOpen.subscribed, isOpen.running, isOpen.within, holds, ?_⟩
    simpa [yields] using isOpen.thinned
  | cons a rest =>
    rw [here, holds]
    have queue : (channel.setQueue k { channel.queues k with items := rest.map .item }).queues k =
        { channel.queues k with items := rest.map .item } := Function.update_self _ _ _
    refine ⟨rest, isOpen.subscribed, isOpen.running, ?_, ?_, ?_⟩
    · show ((channel.setQueue k { channel.queues k with items := rest.map .item }).queues k).Within
      rw [queue]
      have within := isOpen.within
      simp only [AsyncQueue.Within, holds, List.length_map, List.length_cons] at within ⊢
      omega
    · show ((channel.setQueue k { channel.queues k with items := rest.map .item }).queues k).items = _
      rw [queue]
    · have moved : out ++ [a] ++ rest = out ++ a :: rest := by rw [List.append_assoc]; rfl
      simpa [yields, moved] using isOpen.thinned

theorem Open.step {channel : SseChannel α} {k : Nat} {items out waiting : List α}
    (isOpen : Open isCritical channel k items out waiting) {s : Step α} (stays : s ≠ .unsubscribe k) :
    Following isCritical (channel.step isCritical s).2 k (items ++ broadcasts [s])
      (out ++ yields k (channel.step isCritical s).1.toList) := by
  have older := channel.earlier k isOpen.subscribed
  cases s with
  | subscribe hookRaises =>
    have queues : Function.update channel.queues channel.opened ⟨channel.queueMaxsize, []⟩ k =
        channel.queues k := Function.update_of_ne (Nat.ne_of_lt older) _ _
    have finished : Function.update channel.finished channel.opened false k = channel.finished k :=
      Function.update_of_ne (Nat.ne_of_lt older) _ _
    have thinned : Thinned (fun a => isCritical (.item a)) (out ++ [] ++ waiting) (items ++ []) := by
      simpa only [List.append_nil] using isOpen.thinned
    apply Or.inl
    refine ⟨waiting, ?_⟩
    simp only [SseChannel.step, subscribe]
    split
    · exact ⟨isOpen.subscribed, finished.trans isOpen.running,
        (congrArg AsyncQueue.Within queues).mpr isOpen.within, (congrArg AsyncQueue.items queues).trans isOpen.holds, thinned⟩
    · exact ⟨.tail _ isOpen.subscribed, finished.trans isOpen.running,
        (congrArg AsyncQueue.Within queues).mpr isOpen.within, (congrArg AsyncQueue.items queues).trans isOpen.holds, thinned⟩
  | unsubscribe j =>
    have other : k ≠ j := fun same => stays (same ▸ rfl)
    apply Or.inl
    refine ⟨waiting, channel.distinct.mem_erase_iff.mpr ⟨other, isOpen.subscribed⟩, isOpen.running,
      isOpen.within, isOpen.holds, ?_⟩
    simpa [broadcasts, yields, SseChannel.step] using isOpen.thinned
  | broadcast a =>
    have same : out ++ yields k (channel.step isCritical (.broadcast a)).1.toList = out :=
      List.append_nil out
    rw [same]
    exact isOpen.broadcast a
  | next j =>
    have same : items ++ broadcasts [Step.next (α := α) j] = items := List.append_nil items
    rw [same]
    by_cases here : k = j
    · subst here
      exact .inl isOpen.next
    · obtain ⟨subscribers, -, others⟩ := next_rest channel j
      obtain ⟨queues, finished⟩ := others k here
      apply Or.inl
      refine ⟨waiting, ?_, ?_, ?_, ?_, ?_⟩
      · exact subscribers.symm ▸ isOpen.subscribed
      · exact finished.trans isOpen.running
      · exact (congrArg AsyncQueue.Within queues).mpr isOpen.within
      · exact (congrArg AsyncQueue.items queues).trans isOpen.holds
      · show Thinned _ (out ++ yields k ((channel.next j).1.map (j, ·)).toList ++ waiting) items
        rw [yields_next_other channel here, List.append_nil]
        exact isOpen.thinned
  | timeout j =>
    have none : yields k (channel.step isCritical (.timeout j)).1.toList = [] := by
      simp only [SseChannel.step]
      split_ifs <;> rfl
    have same : items ++ broadcasts [Step.timeout (α := α) j] = items := List.append_nil items
    rw [same, none, List.append_nil]
    exact .inl ⟨waiting, isOpen⟩

theorem Following.step {channel : SseChannel α} {k : Nat} {items out : List α}
    (following : Following isCritical channel k items out) {s : Step α} (stays : s ≠ .unsubscribe k) :
    Following isCritical (channel.step isCritical s).2 k (items ++ broadcasts [s])
      (out ++ yields k (channel.step isCritical s).1.toList) := by
  cases following with
  | inl isOpen =>
    obtain ⟨waiting, isOpen⟩ := isOpen
    exact isOpen.step stays
  | inr cut =>
    obtain ⟨after, none⟩ := cut.1.step isCritical s
    rw [none, List.append_nil]
    exact .inr ⟨after, cut.2.append _⟩

end Following

section Runs

theorem broadcasts_cons (s : Step α) (rest : List (Step α)) :
    broadcasts (s :: rest) = broadcasts [s] ++ broadcasts rest := List.filterMap_append (l := [s])

theorem yields_append (k : Nat) (first second : List (Nat × Output α)) :
    yields k (first ++ second) = yields k first ++ yields k second := List.filterMap_append

theorem Following.run {k : Nat} {steps : List (Step α)} (stays : Step.unsubscribe k ∉ steps)
    {channel : SseChannel α} {items out : List α} (following : Following isCritical channel k items out) :
    Following isCritical (channel.run isCritical steps).2 k (items ++ broadcasts steps)
      (out ++ yields k (channel.run isCritical steps).1) := by
  induction steps generalizing channel items out with
  | nil =>
    have same : items ++ broadcasts ([] : List (Step α)) = items := List.append_nil items
    have none : out ++ yields k (channel.run isCritical []).1 = out := List.append_nil out
    rw [same, none]
    exact following
  | cons s rest ih =>
    rw [List.mem_cons, not_or] at stays
    have later := ih stays.2 (following.step (Ne.symm stays.1))
    rw [List.append_assoc, List.append_assoc, ← broadcasts_cons, ← yields_append] at later
    exact later

theorem Cut.run {channel : SseChannel α} {k : Nat} (cut : Cut channel k) (steps : List (Step α)) :
    yields k (channel.run isCritical steps).1 = [] := by
  induction steps generalizing channel with
  | nil => rfl
  | cons s rest ih =>
    obtain ⟨after, none⟩ := cut.step isCritical s
    have later := ih after
    show yields k ((channel.step isCritical s).1.toList ++ _) = []
    rw [yields_append, none]
    exact later

theorem run_append (channel : SseChannel α) (steps more : List (Step α)) :
    (channel.run isCritical (steps ++ more)).1 =
      (channel.run isCritical steps).1 ++ ((channel.run isCritical steps).2.run isCritical more).1 := by
  induction steps generalizing channel with
  | nil => rfl
  | cons s rest ih =>
    show (channel.step isCritical s).1.toList ++ ((channel.step isCritical s).2.run isCritical (rest ++ more)).1 =
      ((channel.step isCritical s).1.toList ++ ((channel.step isCritical s).2.run isCritical rest).1) ++ _
    rw [ih, List.append_assoc]
    rfl

theorem subscribe_open {channel subscribed : SseChannel α} {hookRaises : Bool} {k : Nat}
    (subscribes : channel.subscribe hookRaises = (some k, subscribed)) :
    Open isCritical subscribed k [] [] [] := by
  unfold subscribe at subscribes
  split at subscribes
  · cases subscribes
  · cases subscribes
    refine ⟨.head _, Function.update_self _ _ _, ?_, ?_, .nil⟩
    · show (Function.update channel.queues channel.opened _ channel.opened).Within
      rw [Function.update_self]
      simp only [AsyncQueue.Within, List.length_nil]
      omega
    · show (Function.update channel.queues channel.opened _ channel.opened).items = _
      rw [Function.update_self]
      rfl

/-- In every run after its subscription, a subscriber is handed its items in order and each at most
once. While its stream is open, the critical items it was not handed wait in its queue. Otherwise its
stream ends with the next message, all the critical items before the first missing one were handed to
it, and it is handed nothing from then on. -/
theorem no_critical_item_missed (isCritical : Message α → Bool) (queueMaxsize : Int)
    (before steps : List (Step α)) {hookRaises : Bool} {k : Nat} {channel : SseChannel α}
    (subscribes : ((new queueMaxsize).run isCritical before).2.subscribe hookRaises = (some k, channel))
    (stays : Step.unsubscribe k ∉ steps) :
    let items := broadcasts steps
    let out := yields k (channel.run isCritical steps).1
    let after := (channel.run isCritical steps).2
    let critical := fun a => isCritical (.item a)
    out.Sublist items ∧
      ((∃ waiting, (after.queues k).items = waiting.map .item ∧ after.finished k = false ∧
          (out ++ waiting).Sublist items ∧ (out ++ waiting).filter critical = items.filter critical) ∨
        (∃ early lost late, items = early ++ lost :: late ∧ critical lost = true ∧
          out.Sublist early ∧ out.filter critical = early.filter critical ∧
          (after.finished k = true ∨ (after.next k).1 = some .returned) ∧
          ∀ more, yields k (channel.run isCritical (steps ++ more)).1 = out)) := by
  intro items out after critical
  have following : Following isCritical after k items out :=
    Following.run stays (.inl ⟨[], subscribe_open subscribes⟩)
  cases following with
  | inl isOpen =>
    obtain ⟨waiting, isOpen⟩ := isOpen
    have whole := isOpen.thinned.sublist
    exact ⟨(List.sublist_append_left out waiting).trans whole,
      .inl ⟨waiting, isOpen.holds, isOpen.running, whole, isOpen.thinned.filter_eq⟩⟩
  | inr cut =>
    obtain ⟨cut, early, lost, late, same, isLost, thinned⟩ := cut
    refine ⟨?_, .inr ⟨early, lost, late, same, isLost, thinned.sublist, thinned.filter_eq, ?_, ?_⟩⟩
    · exact thinned.sublist.trans (same ▸ List.sublist_append_left early _)
    · cases running : after.finished k with
      | true => exact .inl rfl
      | false =>
        cases cut.ended with
        | inl finished => rw [running] at finished; cases finished
        | inr holds => exact .inr (next_end running holds).1
    · intro more
      rw [run_append, yields_append, cut.run, List.append_nil]

/-- A queue of one: the second critical item ends the stream before the first is read. -/
theorem critical_item_cut :
    ∃ steps : List (Step Nat), ∃ channel : SseChannel Nat,
      yields 0 (channel.run (fun _ => true) steps).1 = [] ∧ broadcasts steps = [5, 6, 7] ∧
        (yields 0 (channel.run (fun _ => true) steps).1).Sublist (broadcasts steps) := by
  refine ⟨[.broadcast 5, .broadcast 6, .broadcast 7, .next 0], ((new 1).subscribe false).2,
    by decide, by decide, ?_⟩
  have subscribes : ((new 1).run (fun _ => true) ([] : List (Step Nat))).2.subscribe false =
      (some 0, ((new 1).subscribe false).2) := rfl
  exact (no_critical_item_missed (fun _ => true) 1 [] [.broadcast 5, .broadcast 6, .broadcast 7, .next 0]
    subscribes (by decide)).1

end Runs

end SseChannel

end ArcReel.Events.Sse
