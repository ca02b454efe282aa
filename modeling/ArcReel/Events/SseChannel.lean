import ArcReel.Lib.Thinned
import Mathlib.Logic.Function.Basic

/-! The channel that hands broadcast items to its subscription queues, and what happens to a queue
that is full. -/

namespace ArcReel.Events.Sse
open ArcReel.Lib

/-- What lies in a subscription queue. -/
inductive Message (α : Type) where
  | item (a : α)
  | endOfStream
  deriving DecidableEq, Repr

/-- An `asyncio.Queue`; without a positive `maxsize` it is unbounded. -/
structure AsyncQueue (β : Type) where
  maxsize : Int
  items : List β
  deriving DecidableEq, Repr

namespace AsyncQueue

variable {β : Type}

def full (queue : AsyncQueue β) : Bool := 0 < queue.maxsize && queue.maxsize ≤ queue.items.length

/-- `put_nowait`, nothing where it raises `QueueFull`. -/
def putNowait (queue : AsyncQueue β) (b : β) : Option (AsyncQueue β) :=
  if queue.full then none else some { queue with items := queue.items ++ [b] }

/-- Puts until the queue is full. -/
def putAll (queue : AsyncQueue β) : List β → AsyncQueue β
  | [] => queue
  | b :: rest =>
    match queue.putNowait b with
    | some queue' => putAll queue' rest
    | none => queue

end AsyncQueue

section Policy

variable {α : Type} (isCritical : Message α → Bool)

/-- What is put back into a queue after one non-critical message has been left out. -/
def putBack : Bool → List (Message α) → List (Message α)
  | _, [] => []
  | evicted, msg :: rest =>
    if !evicted && !isCritical msg then putBack true rest else msg :: putBack evicted rest

def evictOneNonCritical (queue : AsyncQueue (Message α)) : AsyncQueue (Message α) :=
  ({ queue with items := [] } : AsyncQueue (Message α)).putAll (putBack isCritical false queue.items)

/-- Whether the subscriber may stay, and its queue afterwards. -/
def deliver (queue : AsyncQueue (Message α)) (a : α) : Bool × AsyncQueue (Message α) :=
  match queue.putNowait (.item a) with
  | some queue' => (true, queue')
  | none =>
    if isCritical (.item a) then
      match (evictOneNonCritical isCritical queue).putNowait (.item a) with
      | some queue' => (true, queue')
      | none => (false, evictOneNonCritical isCritical queue)
    else (true, queue)

def finalizeRemoval (queue : AsyncQueue (Message α)) : AsyncQueue (Message α) :=
  ({ queue with items := [] } : AsyncQueue (Message α)).putAll [.endOfStream]

end Policy

/-- The subscription queues that have been made, by number, and which of them are subscribed; a
stream whose `iterate` has returned is finished. -/
structure SseChannel (α : Type) where
  queueMaxsize : Int
  opened : Nat
  subscribers : List Nat
  queues : Nat → AsyncQueue (Message α)
  finished : Nat → Bool
  distinct : subscribers.Nodup
  earlier : ∀ k ∈ subscribers, k < opened

namespace SseChannel

variable {α : Type} (isCritical : Message α → Bool)

def new (queueMaxsize : Int) : SseChannel α where
  queueMaxsize := queueMaxsize
  opened := 0
  subscribers := []
  queues := fun _ => ⟨queueMaxsize, []⟩
  finished := fun _ => false
  distinct := List.nodup_nil
  earlier := nofun

/-- Registers a new queue; where the hook for a first subscriber raises, it is taken back. -/
def subscribe (channel : SseChannel α) (hookRaises : Bool) : Option Nat × SseChannel α :=
  let queues := Function.update channel.queues channel.opened ⟨channel.queueMaxsize, []⟩
  let finished := Function.update channel.finished channel.opened false
  if channel.subscribers.isEmpty && hookRaises then
    (none, { channel with
      opened := channel.opened + 1
      queues := queues
      finished := finished
      earlier := fun k inside => Nat.lt_succ_of_lt (channel.earlier k inside) })
  else
    (some channel.opened, { channel with
      opened := channel.opened + 1
      subscribers := channel.opened :: channel.subscribers
      queues := queues
      finished := finished
      distinct := List.nodup_cons.mpr
        ⟨fun inside => Nat.lt_irrefl _ (channel.earlier _ inside), channel.distinct⟩
      earlier := fun k inside => by
        cases List.mem_cons.mp inside with
        | inl same => exact same ▸ Nat.lt_succ_self _
        | inr older => exact Nat.lt_succ_of_lt (channel.earlier k older) })

def discard (channel : SseChannel α) (k : Nat) : SseChannel α :=
  { channel with
    subscribers := channel.subscribers.erase k
    distinct := channel.distinct.erase k
    earlier := fun other inside => channel.earlier other (List.mem_of_mem_erase inside) }

def setQueue (channel : SseChannel α) (k : Nat) (queue : AsyncQueue (Message α)) : SseChannel α :=
  { channel with queues := Function.update channel.queues k queue }

/-- Delivers an item to the queues one after another; the stale ones come back with it. -/
def deliverAll (a : α) : List Nat → SseChannel α → List Nat × SseChannel α
  | [], channel => ([], channel)
  | k :: rest, channel =>
    let (kept, queue) := deliver isCritical (channel.queues k) a
    let (stale, channel') := deliverAll a rest (channel.setQueue k queue)
    (if kept then stale else k :: stale, channel')

def removeStale (channel : SseChannel α) (k : Nat) : SseChannel α :=
  (channel.setQueue k (finalizeRemoval (channel.queues k))).discard k

def broadcast (channel : SseChannel α) (a : α) : SseChannel α :=
  let (stale, channel') := deliverAll isCritical a channel.subscribers channel
  stale.foldl removeStale channel'

/-- What a turn of `iterate` hands to its consumer. -/
inductive Output (α : Type) where
  | idle
  | yielded (a : α)
  | returned
  deriving DecidableEq, Repr

/-- A turn of `iterate` that gets a message. -/
def next (channel : SseChannel α) (k : Nat) : Option (Output α) × SseChannel α :=
  if channel.finished k then (none, channel)
  else
    match (channel.queues k).items with
    | [] => (none, channel)
    | msg :: rest =>
      let channel' := channel.setQueue k { channel.queues k with items := rest }
      match msg with
      | .item a => (some (.yielded a), channel')
      | .endOfStream => (some .returned, { channel' with finished := Function.update channel.finished k true })

/-- What may happen to a channel between two awaits. -/
inductive Step (α : Type) where
  | subscribe (hookRaises : Bool)
  | unsubscribe (k : Nat)
  | broadcast (a : α)
  | next (k : Nat)
  | timeout (k : Nat)
  deriving DecidableEq, Repr

/-- A step, with what it hands to the consumer of a queue. -/
def step (channel : SseChannel α) : Step α → Option (Nat × Output α) × SseChannel α
  | .subscribe hookRaises => (none, (channel.subscribe hookRaises).2)
  | .unsubscribe k => (none, channel.discard k)
  | .broadcast a => (none, channel.broadcast isCritical a)
  | .next k => ((channel.next k).1.map (k, ·), (channel.next k).2)
  | .timeout k => (if channel.finished k then none else some (k, .idle), channel)

/-- The outputs of a run, in order, and the channel it leaves. -/
def run (channel : SseChannel α) : List (Step α) → List (Nat × Output α) × SseChannel α
  | [] => ([], channel)
  | s :: rest =>
    let (output, channel') := channel.step isCritical s
    let (outputs, channel'') := run channel' rest
    (output.toList ++ outputs, channel'')

/-- The items that a run broadcasts. -/
def broadcasts (steps : List (Step α)) : List α :=
  steps.filterMap fun
    | .broadcast a => some a
    | _ => none

/-- What the consumer of a queue was handed, without the idle marks. -/
def yields (k : Nat) (outputs : List (Nat × Output α)) : List α :=
  outputs.filterMap fun
    | (other, .yielded a) => if other = k then some a else none
    | _ => none

end SseChannel

end ArcReel.Events.Sse
