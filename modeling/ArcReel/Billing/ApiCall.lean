import Mathlib.Tactic

/-! Rows of `api_calls` and the two ways in which `UsageRepository` settles them. -/

namespace ArcReel.Billing

inductive CallStatus where
  | pending
  | success
  | failed
  deriving DecidableEq, Repr

/-- A row, with amounts of money in `α`. -/
structure ApiCall (α : Type) where
  callType : String
  model : Option String
  resolution : Option String
  durationSeconds : Option Int
  aspectRatio : Option String
  generateAudio : Option Bool
  status : CallStatus
  errorMessage : Option (List Char)
  outputPath : Option String
  startedAt : Int
  finishedAt : Option Int
  durationMs : Option Int
  costAmount : α
  currency : String
  provider : String
  usageTokens : Option Int
  inputTokens : Option Int
  outputTokens : Option Int
  imageInputTokens : Option Int
  imageOutputTokens : Option Int
  textInputTokens : Option Int
  textOutputTokens : Option Int
  deriving DecidableEq, Repr

structure SettlementInput (α : Type) where
  costAmount : Option α := none
  currency : Option String := none
  serviceTier : String := "default"
  generateAudio : Option Bool := none
  billedDurationSeconds : Option Int := none
  usageTokens : Option Int := none
  inputTokens : Option Int := none
  outputTokens : Option Int := none
  quality : Option String := none
  imageInputTokens : Option Int := none
  imageOutputTokens : Option Int := none
  textInputTokens : Option Int := none
  textOutputTokens : Option Int := none

/-- `PricingParams`, as `_settle` fills them. -/
structure PricingParams where
  callType : String
  model : Option String
  resolution : Option String
  aspectRatio : Option String
  durationSeconds : Option Int
  generateAudio : Bool
  usageTokens : Option Int
  serviceTier : String
  inputTokens : Option Int
  outputTokens : Option Int
  quality : Option String
  imageInputTokens : Option Int
  imageOutputTokens : Option Int
  textInputTokens : Option Int
  textOutputTokens : Option Int

/-- The price that `resolve_price` finds for a custom provider. -/
structure CustomProviderPrice (α : Type) where
  priceInput : Option α
  priceOutput : Option α
  currency : Option String

/-- What the settlement takes from elsewhere: the calculator, and the milliseconds between two
instants. -/
structure Tariff (α : Type) where
  calculateCost : String → PricingParams → CustomProviderPrice α → α × String
  elapsedMs : Int → Int → Int

structure SettledCall (α : Type) where
  durationMs : Int
  effectiveDurationSeconds : Option Int
  effectiveGenerateAudio : Option Bool
  inputTokens : Option Int
  outputTokens : Option Int
  costAmount : α
  currency : String

def maxBilledDurationSeconds : Int := 86400

/-- `value or fallback` of a text. -/
def textOr (value : Option String) (fallback : String) : String :=
  match value with
  | none => fallback
  | some value => if value = "" then fallback else value

section Settle

variable {α : Type} [Zero α] (tariff : Tariff α)

def effectiveDuration (row : ApiCall α) (settlement : SettlementInput α) : Option Int :=
  match settlement.billedDurationSeconds with
  | none => row.durationSeconds
  | some billed =>
    if 0 < billed ∧ billed ≤ maxBilledDurationSeconds then some billed else row.durationSeconds

def hasImageTokens (settlement : SettlementInput α) : Bool :=
  settlement.imageInputTokens.isSome || settlement.imageOutputTokens.isSome ||
    settlement.textInputTokens.isSome || settlement.textOutputTokens.isSome

def settledInputTokens (settlement : SettlementInput α) : Option Int :=
  if hasImageTokens settlement then
    some (settlement.imageInputTokens.getD 0 + settlement.textInputTokens.getD 0)
  else settlement.inputTokens

def settledOutputTokens (settlement : SettlementInput α) : Option Int :=
  if hasImageTokens settlement then
    some (settlement.imageOutputTokens.getD 0 + settlement.textOutputTokens.getD 0)
  else settlement.outputTokens

def pricingParams (row : ApiCall α) (settlement : SettlementInput α) : PricingParams where
  callType := row.callType
  model := row.model
  resolution := row.resolution
  aspectRatio := row.aspectRatio
  durationSeconds := effectiveDuration row settlement
  generateAudio := (settlement.generateAudio.or row.generateAudio).getD false
  usageTokens := settlement.usageTokens
  serviceTier := settlement.serviceTier
  inputTokens := settledInputTokens settlement
  outputTokens := settledOutputTokens settlement
  quality := settlement.quality
  imageInputTokens := settlement.imageInputTokens
  imageOutputTokens := settlement.imageOutputTokens
  textInputTokens := settlement.textInputTokens
  textOutputTokens := settlement.textOutputTokens

def settledCost (row : ApiCall α) (settlement : SettlementInput α) (autoCalc : Bool)
    (baseCurrency : String) (price : CustomProviderPrice α) : α × String :=
  match settlement.costAmount with
  | some amount => (amount, textOr settlement.currency baseCurrency)
  | none =>
    if autoCalc then
      tariff.calculateCost (textOr (some row.provider) "gemini") (pricingParams row settlement) price
    else (0, baseCurrency)

/-- `_settle`. -/
def settle (row : ApiCall α) (finishedAt : Int) (settlement : SettlementInput α) (autoCalc : Bool)
    (baseCurrency : String) (price : CustomProviderPrice α) : SettledCall α where
  durationMs := tariff.elapsedMs finishedAt row.startedAt
  effectiveDurationSeconds := effectiveDuration row settlement
  effectiveGenerateAudio := settlement.generateAudio.or row.generateAudio
  inputTokens := settledInputTokens settlement
  outputTokens := settledOutputTokens settlement
  costAmount := (settledCost tariff row settlement autoCalc baseCurrency price).1
  currency := (settledCost tariff row settlement autoCalc baseCurrency price).2

/-- The values that the UPDATE of `finalize_pending_by_call_id` writes, computed from the row that
its SELECT has seen. -/
def finalizedRow (seen : ApiCall α) (status : CallStatus) (finishedAt : Int)
    (settlement : SettlementInput α) (price : CustomProviderPrice α) (row : ApiCall α) : ApiCall α :=
  let settled := settle tariff seen finishedAt settlement
    (status = .success && seen.status = .pending) (textOr settlement.currency "USD") price
  { row with
    status := status
    finishedAt := some finishedAt
    durationMs := some settled.durationMs
    durationSeconds := settled.effectiveDurationSeconds
    costAmount := settled.costAmount
    currency := settled.currency
    usageTokens := settlement.usageTokens
    generateAudio := settled.effectiveGenerateAudio }

/-- The values that the UPDATE of `finish_call` writes. -/
def finishedRow (seen : ApiCall α) (status : CallStatus) (finishedAt : Int)
    (settlement : SettlementInput α) (outputPath : Option String) (errorMessage : Option (List Char))
    (price : CustomProviderPrice α) (row : ApiCall α) : ApiCall α :=
  let settled := settle tariff seen finishedAt settlement (status = .success)
    (textOr (some seen.currency) "USD") price
  { row with
    status := status
    finishedAt := some finishedAt
    durationMs := some settled.durationMs
    durationSeconds := settled.effectiveDurationSeconds
    generateAudio := settled.effectiveGenerateAudio
    costAmount := settled.costAmount
    currency := settled.currency
    usageTokens := settlement.usageTokens
    inputTokens := settled.inputTokens
    outputTokens := settled.outputTokens
    imageInputTokens := settlement.imageInputTokens
    imageOutputTokens := settlement.imageOutputTokens
    textInputTokens := settlement.textInputTokens
    textOutputTokens := settlement.textOutputTokens
    outputPath := outputPath
    errorMessage := (errorMessage.filter (· ≠ [])).map (·.take 500) }

end Settle

/-- What the row says about the charge. -/
structure Charge (α : Type) where
  status : CallStatus
  costAmount : α
  currency : String
  durationSeconds : Option Int
  usage : List (Option Int)
  deriving DecidableEq, Repr

def ApiCall.charge {α : Type} (row : ApiCall α) : Charge α where
  status := row.status
  costAmount := row.costAmount
  currency := row.currency
  durationSeconds := row.durationSeconds
  usage := [row.usageTokens, row.inputTokens, row.outputTokens, row.imageInputTokens,
    row.imageOutputTokens, row.textInputTokens, row.textOutputTokens]

end ArcReel.Billing
