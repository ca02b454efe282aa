import ArcReel.Lib.SqlSession
import ArcReel.Queue.Task

/-! `TaskRepository`, with `GenerationWorker._requeue_single_task`, as programs
of SQL statements. A constructor of `Stmt` is one statement together with the
Python code up to the next one; the recursive cascades push their statements
before the caller's remaining ones. -/

namespace ArcReel.Queue
open ArcReel.Lib.SqlSession

/-- The text functions of `lib.task_failure` and of the JSON payload column. -/
structure TextCodec where
  boundReason : String → Nat → String
  encodeBoundedCascadeFailure : (dependencyTaskId reason : String) → String
  mergePayloadField : Option String → (key value : String) → String

/-- A codec for short texts: nothing is cut, and a cascade reason is the root reason. -/
def plainCodec : TextCodec where
  boundReason text _ := text
  encodeBoundedCascadeFailure _ reason := reason
  mergePayloadField payload _ _ := payload.getD ""

/-- `_MAX_ERROR_MESSAGE_LEN`. -/
def maxErrorMessageLen : Nat := 2000

/-- The arguments of `enqueue`, with the fresh `uuid4().hex`. -/
structure EnqueueRequest where
  taskId : String
  projectName : String
  taskType : String
  mediaType : String
  resourceId : String
  payloadJson : String
  scriptFile : Option String
  resourceType : Option String
  source : String
  dependencyTaskId : Option String
  dependencyGroup : Option String
  dependencyIndex : Option Int
  userId : String
  providerId : Option String
  deriving DecidableEq, Repr

def EnqueueRequest.row (r : EnqueueRequest) (now : Nat) : Task where
  taskId := r.taskId
  projectName := r.projectName
  taskType := r.taskType
  mediaType := r.mediaType
  resourceId := r.resourceId
  resourceType := r.resourceType
  scriptFile := r.scriptFile
  payloadJson := some r.payloadJson
  status := .queued
  resultJson := none
  errorMessage := none
  source := r.source
  dependencyTaskId := r.dependencyTaskId
  dependencyGroup := r.dependencyGroup
  dependencyIndex := r.dependencyIndex
  cancelledBy := none
  providerId := r.providerId
  providerJobId := none
  providerEndpoint := none
  submittedBaseUrl := none
  executionCheckpointJson := none
  queuedAt := now
  startedAt := none
  finishedAt := none
  updatedAt := now
  userId := r.userId

/-- An image request of `project` without optional arguments. -/
def EnqueueRequest.image (taskId projectName resourceId : String)
    (dependencyTaskId : Option String) : EnqueueRequest where
  taskId := taskId
  projectName := projectName
  taskType := "storyboard"
  mediaType := "image"
  resourceId := resourceId
  payloadJson := ""
  scriptFile := none
  resourceType := none
  source := "webui"
  dependencyTaskId := dependencyTaskId
  dependencyGroup := none
  dependencyIndex := none
  userId := "default"
  providerId := none

/-- An entry of `terminal_events`. -/
structure TerminalEvent where
  taskId : String
  projectName : String
  status : TaskStatus
  taskType : String
  deriving DecidableEq, Repr

/-- What a repository method reports: terminal events and parts of its return value. -/
inductive Out where
  | terminalEvent (event : TerminalEvent)
  | enqueued (taskId : String)
  | deduped (existing : Task)
  | claimed (task : Task)
  | affected (rows : Nat)
  | cancelled (task : Task)
  | cancelling (taskId : String)
  | skippedTerminal (task : Task)
  | cancelledCount (cancelled skippedRunning : Nat)
  deriving DecidableEq, Repr

/-- `_record_terminal_event`: a status that is not terminal records nothing. -/
def recordTerminalEvent (taskId projectName taskType : String) (status : TaskStatus) : List Out :=
  if status.terminal then [.terminalEvent ⟨taskId, projectName, status, taskType⟩] else []

inductive Stmt where
  | insertTask (request : EnqueueRequest)
  | selectActiveDuplicate (request : EnqueueRequest)
  | selectClaimable (mediaType : String) (poolFullProviders excludeTaskIds : List String)
  | updateClaimed (taskId : String) (claimedAt : Nat)
  | reloadClaimed (taskId : String)
  | updateSucceeded (taskId resultJson : String)
  | markFailedRunning (taskId errorMessage : String)
  | markFailedQueuedDep (taskId blockedMessage errorMessage : String)
  | cascadeFailedQueued (taskId errorMessage : String)
  | reloadTerminal (taskId : String) (status : TaskStatus)
  | selectForCancel (taskId : String)
  | markCancelled (taskId : String) (cancelledBy : CancelledBy)
  | reloadCancelled (taskId : String)
  | cascadeCancelDependents (taskId : String)
  | markCancelling (taskId : String) (cancelledBy : CancelledBy)
  | refreshForCancel (taskId : String)
  | skipTerminal (task : Task)
  | selectQueuedOf (projectName : String)
  | cancelQueuedOf (projectName : String) (taskIds : List String)
  | reloadCancelledAmong (projectName : String) (taskIds : List String)
  | selectRunning (limit : Int)
  | requeueAmong (taskIds : List String)
  | reloadRequeued (taskIds : List String)
  | requeueSingleTask (taskId : String)
  | persistProviderJobId (taskId jobId : String) (endpoint baseUrl : Option String)
  | persistExecutionCheckpoint (taskId checkpointJson providerId : String)
  | selectPayload (taskId key value : String) (raiseIfMissing : Bool)
  | updatePayload (taskId payloadJson : String) (raiseIfMissing : Bool)
  | persistExecutionProviderId (taskId providerId : String)
  | commit
  | rollback
  deriving DecidableEq, Repr

/-- The `WHERE` clause of the claim query; the pool filter never holds back a reference video. -/
def claimable (table : List Task) (mediaType : String)
    (poolFullProviders excludeTaskIds : List String) (t : Task) : Bool :=
  t.status == .queued && t.mediaType == mediaType &&
    (poolFullProviders.isEmpty || t.taskType == "reference_video" ||
      t.providerId.all (fun p => !poolFullProviders.contains p)) &&
    !excludeTaskIds.contains t.taskId && t.dependencyMet table

/-- `_dispatch_cancel` on the status that the caller's query has seen. -/
def dispatchCancel (cancelledBy : CancelledBy) (t : Task) : List Stmt :=
  match t.status with
  | .queued => [.markCancelled t.taskId cancelledBy]
  | .running => [.markCancelling t.taskId cancelledBy]
  | .cancelling => []
  | .succeeded | .failed | .cancelled => [.skipTerminal t]

theorem mem_dispatchCancel {cancelledBy : CancelledBy} {t : Task} {stmt : Stmt} :
    stmt ∈ dispatchCancel cancelledBy t ↔
      t.status = .queued ∧ stmt = .markCancelled t.taskId cancelledBy ∨
      t.status = .running ∧ stmt = .markCancelling t.taskId cancelledBy ∨
      t.status.terminal = true ∧ stmt = .skipTerminal t := by
  unfold dispatchCancel
  cases t.status <;> simp [TaskStatus.terminal]

section Statements

variable (codec : TextCodec) (now : Nat)

def setFailed (message : String) (t : Task) : Task :=
  { t with
    status := .failed
    errorMessage := some (codec.boundReason message maxErrorMessageLen)
    finishedAt := some now
    updatedAt := now }

def setCancelled (cancelledBy : CancelledBy) (t : Task) : Task :=
  { t with
    status := .cancelled
    cancelledBy := some (t.cancelledBy.getD cancelledBy)
    finishedAt := some now
    updatedAt := now }

def action : Stmt → Action Task Stmt Out
  | .insertTask request =>
      .insert (request.row now) (Task.clashes (request.row now))
        (.go [.commit] [.enqueued request.taskId])
        (.go [.rollback, .selectActiveDuplicate request] [])
  | .selectActiveDuplicate request =>
      .query fun table =>
        match (table.filter fun t => t.status.active &&
            t.dedupeKey == (request.row now).dedupeKey).insertionSort
              (fun a b => b.queuedAt ≤ a.queuedAt) with
        | existing :: _ => .go [] [.deduped existing]
        | [] => .raise
  | .selectClaimable mediaType poolFullProviders excludeTaskIds =>
      .query fun table =>
        match byQueuedAt (table.filter
            (claimable table mediaType poolFullProviders excludeTaskIds)) with
        | target :: _ => .go [.updateClaimed target.taskId now] []
        | [] => .go [] []
  | .updateClaimed taskId claimedAt =>
      .update (Task.hits taskId (· == .queued))
        (fun t => { t with
          status := .running, startedAt := some claimedAt, updatedAt := claimedAt })
        fun rows => if rows = 0 then .go [.rollback] []
          else .go [.reloadClaimed taskId, .commit] []
  | .reloadClaimed taskId =>
      .query fun table =>
        match findTask table taskId with
        | some t => .go [] [.claimed t]
        | none => .raise
  | .updateSucceeded taskId resultJson =>
      .update (Task.hits taskId (· == .running))
        (fun t => { t with
          status := .succeeded, resultJson := some resultJson, errorMessage := none
          finishedAt := some now, updatedAt := now })
        fun rows => if rows = 0 then .go [] [.affected 0]
          else .go [.reloadTerminal taskId .succeeded, .commit] [.affected rows]
  | .markFailedRunning taskId errorMessage =>
      .update (Task.hits taskId (· == .running)) (setFailed codec now errorMessage)
        fun rows => if rows = 0 then .go [] [.affected 0]
          else .go [.reloadTerminal taskId .failed, .cascadeFailedQueued taskId errorMessage,
            .commit] [.affected rows]
  | .markFailedQueuedDep taskId blockedMessage errorMessage =>
      .update (Task.hits taskId (· == .queued)) (setFailed codec now blockedMessage)
        fun rows => if rows = 0 then .go [] []
          else .go [.reloadTerminal taskId .failed, .cascadeFailedQueued taskId errorMessage] []
  | .cascadeFailedQueued taskId errorMessage =>
      .query fun table =>
        .go ((byQueuedAt (table.filter fun t =>
            t.dependencyTaskId == some taskId && t.status == .queued)).map fun t =>
          .markFailedQueuedDep t.taskId (codec.encodeBoundedCascadeFailure taskId errorMessage)
            errorMessage) []
  | .reloadTerminal taskId status =>
      .query fun table =>
        match findTask table taskId with
        | some t => .go [] (recordTerminalEvent taskId t.projectName t.taskType status)
        | none => .raise
  | .selectForCancel taskId =>
      .query fun table =>
        match findTask table taskId with
        | some t => .go (dispatchCancel .user t ++ [.commit]) []
        | none => .raise
  | .markCancelled taskId cancelledBy =>
      .update (Task.hits taskId fun s => s == .queued || s == .cancelling || s == .running)
        (setCancelled now cancelledBy)
        fun rows => if rows = 0 then .go [] [] else .go [.reloadCancelled taskId] []
  | .reloadCancelled taskId =>
      .query fun table =>
        match findTask table taskId with
        | some t => .go [.cascadeCancelDependents taskId]
            (recordTerminalEvent taskId t.projectName t.taskType .cancelled ++ [.cancelled t])
        | none => .raise
  | .cascadeCancelDependents taskId =>
      .query fun table =>
        .go ((byQueuedAt (table.filter fun t => t.dependencyTaskId == some taskId)).flatMap
          (dispatchCancel .cascade)) []
  | .markCancelling taskId cancelledBy =>
      .update (Task.hits taskId (· == .running))
        (fun t => { t with
          status := .cancelling, cancelledBy := some cancelledBy, updatedAt := now })
        fun rows => if rows = 0 then .go [.refreshForCancel taskId] []
          else .go [] [.cancelling taskId]
  | .refreshForCancel taskId =>
      .query fun table =>
        match findTask table taskId with
        | none => .raise
        | some t =>
            if t.status == .cancelling then .go [] [.cancelling taskId]
            else if t.status.terminal then .go [] [.skippedTerminal t]
            else .go [] []
  | .skipTerminal t => .query fun _ => .go [] [.skippedTerminal t]
  | .selectQueuedOf projectName =>
      .query fun table =>
        .go [.cancelQueuedOf projectName ((table.filter fun t =>
          t.projectName == projectName && t.status == .queued).map Task.taskId)] []
  | .cancelQueuedOf projectName taskIds =>
      .update (fun t => t.projectName == projectName && t.status == .queued)
        (fun t => { t with
          status := .cancelled, cancelledBy := some .user
          finishedAt := some now, updatedAt := now })
        fun rows => .go
          ((if taskIds.isEmpty then [] else [.reloadCancelledAmong projectName taskIds]) ++
            [.commit])
          [.cancelledCount rows (taskIds.length - rows)]
  | .reloadCancelledAmong projectName taskIds =>
      .query fun table =>
        .go [] ((table.filter fun t => taskIds.contains t.taskId && t.status == .cancelled).flatMap
          fun t => recordTerminalEvent t.taskId projectName t.taskType .cancelled)
  | .selectRunning limit =>
      .query fun table =>
        match ((byUpdatedAt (table.filter fun t => t.status == .running)).take
            (max 1 (min 5000 limit)).toNat).map Task.taskId with
        | [] => .go [] [.affected 0]
        | taskIds => .go [.requeueAmong taskIds, .reloadRequeued taskIds, .commit] []
  | .requeueAmong taskIds =>
      .update (fun t => taskIds.contains t.taskId && t.status == .running)
        (fun t => { t with
          status := .queued, startedAt := none, finishedAt := none, updatedAt := now
          resultJson := none, errorMessage := none })
        fun _ => .go [] []
  | .reloadRequeued taskIds =>
      .query fun table =>
        .go [] [.affected (table.countP fun t => taskIds.contains t.taskId && t.status == .queued)]
  | .requeueSingleTask taskId =>
      .update (Task.hits taskId (· == .running))
        (fun t => { t with status := .queued, startedAt := none, updatedAt := now })
        fun rows => .go [.commit] [.affected rows]
  | .persistProviderJobId taskId jobId endpoint baseUrl =>
      .update (fun t => t.taskId == taskId)
        (fun t => { t with
          providerJobId := some jobId, updatedAt := now
          providerEndpoint := endpoint.orElse fun _ => t.providerEndpoint
          submittedBaseUrl := baseUrl.orElse fun _ => t.submittedBaseUrl })
        fun _ => .go [.commit] []
  | .persistExecutionCheckpoint taskId checkpointJson providerId =>
      .update (fun t => t.taskId == taskId &&
          (t.taskType == "video" || t.taskType == "reference_video") && t.status == .running &&
          t.executionCheckpointJson.isNone && t.providerJobId.isNone)
        (fun t => { t with
          executionCheckpointJson := some checkpointJson, providerId := some providerId
          updatedAt := now })
        fun rows => if rows ≠ 1 then .go [.rollback] [] else .go [.commit] []
  | .selectPayload taskId key value raiseIfMissing =>
      .query fun table =>
        match findTask table taskId with
        | some t => .go [.updatePayload taskId (codec.mergePayloadField t.payloadJson key value)
            raiseIfMissing] []
        | none => if raiseIfMissing then .raise else .go [] []
  | .updatePayload taskId payloadJson raiseIfMissing =>
      .update (fun t => t.taskId == taskId)
        (fun t => { t with payloadJson := some payloadJson, updatedAt := now })
        fun rows => if raiseIfMissing && rows == 0 then .raise else .go [.commit] []
  | .persistExecutionProviderId taskId providerId =>
      .update (fun t => t.taskId == taskId)
        (fun t => { t with providerId := some providerId, updatedAt := now })
        fun _ => .go [.commit] []
  | .commit => .commit
  | .rollback => .rollback

end Statements

/-- The writing methods of `TaskRepository`, and the worker's `_requeue_single_task`. -/
inductive Op where
  | enqueue (request : EnqueueRequest)
  | claimNext (mediaType : String) (poolFullProviders excludeTaskIds : List String)
  | markSucceeded (taskId resultJson : String)
  | markFailed (taskId errorMessage : String)
  | cancelTask (taskId : String)
  | finalizeCancelled (taskId : String) (cancelledBy : CancelledBy)
  | cancelAllQueued (projectName : String)
  | requeueRunning (limit : Int)
  | requeueSingleTask (taskId : String)
  | persistProviderJobId (taskId jobId : String) (endpoint baseUrl : Option String)
  | persistExecutionCheckpoint (taskId checkpointJson providerId : String)
  | persistApiCallId (taskId callId : String)
  | persistExecutionProviderId (taskId providerId : String)
  deriving DecidableEq, Repr

def program : Op → List Stmt
  | .enqueue request => [.insertTask request]
  | .claimNext mediaType poolFullProviders excludeTaskIds =>
      [.selectClaimable mediaType poolFullProviders excludeTaskIds]
  | .markSucceeded taskId resultJson => [.updateSucceeded taskId resultJson]
  | .markFailed taskId errorMessage => [.markFailedRunning taskId errorMessage]
  | .cancelTask taskId => [.selectForCancel taskId]
  | .finalizeCancelled taskId cancelledBy => [.markCancelled taskId cancelledBy, .commit]
  | .cancelAllQueued projectName => [.selectQueuedOf projectName]
  | .requeueRunning limit => [.selectRunning limit]
  | .requeueSingleTask taskId => [.requeueSingleTask taskId]
  | .persistProviderJobId taskId jobId endpoint baseUrl =>
      [.persistProviderJobId taskId jobId endpoint baseUrl]
  | .persistExecutionCheckpoint taskId checkpointJson providerId =>
      [.persistExecutionCheckpoint taskId checkpointJson providerId]
  | .persistApiCallId taskId callId => [.selectPayload taskId "api_call_id" callId true]
  | .persistExecutionProviderId taskId providerId =>
      [.persistExecutionProviderId taskId providerId]

end ArcReel.Queue
