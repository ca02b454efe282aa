import ArcReel.Lib.Dict
import Mathlib.Data.NNRat.Defs
import Mathlib.Tactic

/-! `lib/pricing`, `calculate_vidu_cost` and `CostCalculator.calculate_cost`: the shapes of prices, the price
that a call has, and its cost. Amounts are exact, and `none` is an exception. -/

namespace ArcReel.Quote
open Lib

inductive CallType where
  | text
  | image
  | video
  | audio
  deriving DecidableEq

/-- `str.lower` and `str.upper`. -/
structure Casing where
  lower : String → String
  upper : String → String

structure PricingParams where
  callType : CallType
  model : Option String := none
  resolution : Option String := none
  durationSeconds : Option Int := none
  generateAudio : Bool := true
  usageTokens : Option Int := none
  serviceTier : String := "default"
  inputTokens : Option Int := none
  outputTokens : Option Int := none
  quality : Option String := none
  size : Option String := none
  imageInputTokens : Option Int := none
  imageOutputTokens : Option Int := none
  textInputTokens : Option Int := none
  textOutputTokens : Option Int := none
  n : Int := 1

/-- `or` for a text that can be missing. -/
def textOr (text : Option String) (default : String) : String :=
  match text with
  | none | some "" => default
  | some text => text

/-- `or` for a number of seconds that can be missing. -/
def secondsOr (seconds : Option Int) (default : Int) : Int :=
  match seconds with
  | none | some 0 => default
  | some seconds => seconds

section Shapes

/-- What a declaration of prices has for every model. -/
structure RateTable (ρ : Type) where
  rates : Dict String ρ
  defaultModel : String
  currency : String

inductive Dimensions where
  | resolutionAudio
  | resolutionOnly
  | flat
  deriving DecidableEq

/-- Declared prices are not negative. -/
inductive Pricing where
  | perToken (table : RateTable (Dict String NNRat))
  | perImageFlat (table : RateTable NNRat)
  | perImageByResolution (table : RateTable (Dict String NNRat))
  | perImageOpenAIToken (tokenRates : Dict String (Dict String NNRat))
      (fallback : RateTable (Dict (String × String) NNRat))
  | perSecondMatrix (table : RateTable (Dict (String × Option Bool) NNRat)) (dimensions : Dimensions)
      (defaultResolution : String)
  | perSecondTiered (table : RateTable (Dict (String × Bool) NNRat))
  | perVideoBucket (table : RateTable (Dict (String × Int) NNRat))
  | perTokenVideo (table : RateTable (Dict (String × Bool) NNRat))
  | perCharacter (table : RateTable NNRat)
  | viduDelegate

/-- `rates.get(model, rates[default_model])`, which reads the default in any case. -/
def modelRow {ρ : Type} (rates : Dict String ρ) (defaultModel : String) (model : Option String) : Option ρ :=
  (rates.get? defaultModel).map fun fallback =>
    (rates.get? (textOr model defaultModel)).getD fallback

def RateTable.row {ρ : Type} (table : RateTable ρ) (model : Option String) : Option ρ :=
  modelRow table.rates table.defaultModel model

abbrev Cost : Type := ℚ × String

def count (tokens : Option Int) : ℚ := (tokens.getD 0 : Int)

def million : ℚ := 1000000

def charactersPerPricingUnit : ℚ := 10000

def perToken (table : RateTable (Dict String NNRat)) (params : PricingParams) : Option Cost := do
  let none_ : Dict String NNRat := (Dict.empty.set "input" 0).set "output" 0
  let rates := (table.rates.get? (textOr params.model table.defaultModel)).getD
    ((table.rates.get? table.defaultModel).getD none_)
  let input ← rates.get? "input"
  let output ← rates.get? "output"
  return ((count params.inputTokens * input + count params.outputTokens * output) / million, table.currency)

def perImageFlat (table : RateTable NNRat) (params : PricingParams) : Option Cost := do
  let perImage ← table.row params.model
  return ((perImage : ℚ) * params.n, table.currency)

def perImageByResolution (casing : Casing) (table : RateTable (Dict String NNRat)) (params : PricingParams) :
    Option Cost := do
  let modelCosts ← table.row params.model
  let fallback ← table.rates.get? table.defaultModel
  let defaultCost := (modelCosts.get? "1K").getD ((fallback.get? "1K").getD 0)
  let resolution := textOr params.resolution "1K"
  return (((modelCosts.get? (casing.upper resolution)).getD defaultCost : ℚ) * params.n, table.currency)

def perImageOpenAIToken (tokenRates : Dict String (Dict String NNRat))
    (fallback : RateTable (Dict (String × String) NNRat)) (params : PricingParams) : Option Cost :=
  if params.imageInputTokens.isSome || params.imageOutputTokens.isSome || params.textInputTokens.isSome ||
      params.textOutputTokens.isSome then do
    let rates ← modelRow tokenRates fallback.defaultModel params.model
    let imageIn ← rates.get? "image_in"
    let imageOut ← rates.get? "image_out"
    let textIn ← rates.get? "text_in"
    let textOut ← rates.get? "text_out"
    return ((count params.imageInputTokens * imageIn + count params.imageOutputTokens * imageOut +
      count params.textInputTokens * textIn + count params.textOutputTokens * textOut) / million,
      fallback.currency)
  else do
    let quality := textOr params.quality "medium"
    let size := textOr params.size "1024x1024"
    let modelCosts ← fallback.row params.model
    let perImage := (modelCosts.get? (quality, size)).getD ((modelCosts.get? (quality, "1024x1024")).getD
      ((modelCosts.get? ("medium", "1024x1024")).getD (34 / 1000)))
    return ((perImage : ℚ) * params.n, fallback.currency)

def perSecondMatrix (casing : Casing) (table : RateTable (Dict (String × Option Bool) NNRat))
    (dimensions : Dimensions) (defaultResolution : String) (params : PricingParams) : Option Cost := do
  let modelCosts ← table.row params.model
  let defaultCosts ← table.rates.get? table.defaultModel
  let duration := params.durationSeconds.getD 8
  let perSecond : NNRat := match dimensions with
    | .resolutionAudio =>
        let resolution := casing.lower (textOr params.resolution "1080p")
        let fallback := (modelCosts.get? ("1080p", some true)).getD
          ((defaultCosts.get? ("1080p", some true)).getD 0)
        (modelCosts.get? (resolution, some params.generateAudio)).getD fallback
    | .resolutionOnly =>
        let usual := casing.lower defaultResolution
        let resolution := casing.lower (textOr params.resolution usual)
        (modelCosts.get? (resolution, none)).getD ((modelCosts.get? (usual, none)).getD 0)
    | .flat => (modelCosts.get? ("", none)).getD 0
  return ((duration : ℚ) * perSecond, table.currency)

def perSecondTiered (casing : Casing) (table : RateTable (Dict (String × Bool) NNRat))
    (params : PricingParams) : Option Cost := do
  let modelRates ← table.row params.model
  let duration := params.durationSeconds.getD 8
  let serviceTier := casing.lower params.serviceTier
  let tier :=
    if casing.lower (params.resolution.getD "") = "4k" then "4k"
    else if serviceTier = "" ∨ serviceTier = "default" then "std" else serviceTier
  let perSecond := (modelRates.get? (tier, params.generateAudio)).getD
    ((modelRates.get? ("std", params.generateAudio)).getD ((modelRates.get? ("std", false)).getD 0))
  return ((duration : ℚ) * perSecond, table.currency)

abbrev Bucket : Type := (String × Int) × NNRat

/-- By the distance of the durations, then the duration, then the price, then the key. -/
def bucketOrder (duration : Int) (a b : Bucket) : Ordering :=
  (compare (a.1.2 - duration).natAbs (b.1.2 - duration).natAbs).then ((compare a.1.2 b.1.2).then
    ((compare (a.2 : ℚ) b.2).then ((compare a.1.1 b.1.1).then (compare a.1.2 b.1.2))))

/-- `min(candidates, key=..)`, which fails on no candidates. -/
def nearestBucket (duration : Int) : List Bucket → Option Bucket
  | [] => none
  | first :: later => some (later.foldl (fun best next =>
      if bucketOrder duration next best = .lt then next else best) first)

def perVideoBucket (casing : Casing) (table : RateTable (Dict (String × Int) NNRat))
    (params : PricingParams) : Option Cost := do
  let modelBuckets ← table.row params.model
  let resolution := casing.lower (textOr params.resolution "768p")
  let duration := params.durationSeconds.getD 6
  match modelBuckets.get? (resolution, duration) with
  | some exact_ => return ((exact_ : ℚ), table.currency)
  | none =>
    let sameResolution := modelBuckets.entries.filter fun bucket => bucket.1.1 = resolution
    let candidates := if sameResolution = [] then modelBuckets.entries else sameResolution
    let nearest ← nearestBucket duration candidates
    return ((nearest.2 : ℚ), table.currency)

/-- The price of a million tokens. -/
def pricePerMillion (table : RateTable (Dict (String × Bool) NNRat)) (model : Option String)
    (serviceTier : String) (generateAudio : Bool) : Option NNRat :=
  (table.row model).map fun modelCosts =>
    (modelCosts.get? (serviceTier, generateAudio)).getD ((modelCosts.get? ("default", true)).getD 16)

def perTokenVideo (table : RateTable (Dict (String × Bool) NNRat)) (params : PricingParams) : Option Cost := do
  let price ← pricePerMillion table params.model params.serviceTier params.generateAudio
  return (count params.usageTokens / million * price, table.currency)

def perCharacter (table : RateTable NNRat) (params : PricingParams) : Option Cost :=
  let rate := (table.rates.get? (textOr params.model table.defaultModel)).getD
    ((table.rates.get? table.defaultModel).getD 0)
  some (count params.usageTokens / charactersPerPricingUnit * rate, table.currency)

end Shapes

section Vidu

def viduCreditToCny : ℚ := 3125 / 100000

def viduVideoCreditsPerSecond : List (String × List (String × Nat)) := [
  ("viduq3-pro", [("540p", 10), ("720p", 25), ("1080p", 30)]),
  ("viduq3-turbo", [("540p", 8), ("720p", 12), ("1080p", 14)]),
  ("viduq3-pro-fast", [("540p", 8), ("720p", 12), ("1080p", 14)]),
  ("viduq3", [("540p", 10), ("720p", 25), ("1080p", 30)]),
  ("viduq3-mix", [("540p", 10), ("720p", 25), ("1080p", 30)]),
  ("vidu2.0", [("360p", 5), ("720p", 10), ("1080p", 25)])]

/-- The row of `DEFAULT_VIDU_VIDEO_MODEL`. -/
def defaultViduVideoRow : List (String × Nat) := [("540p", 8), ("720p", 12), ("1080p", 14)]

def viduImageCredits : List (String × List (String × Nat)) := [
  ("viduq2", [("1080p", 8), ("2k", 12), ("4k", 20)]),
  ("viduq1", [("1080p", 20)])]

/-- The row of `DEFAULT_VIDU_IMAGE_MODEL`. -/
def defaultViduImageRow : List (String × Nat) := [("1080p", 8), ("2k", 12), ("4k", 20)]

/-- What `calculate_vidu_cost` falls back on when a response has no credits. -/
def viduTableCost (casing : Casing) (params : PricingParams) : Cost :=
  let resKey := casing.lower (params.resolution.getD "")
  match params.callType with
  | .image =>
      let table := (viduImageCredits.lookup (textOr params.model "viduq2")).getD defaultViduImageRow
      let first := (table.head?.map Prod.snd).getD 0
      let credits := (table.lookup (textOr (some resKey) "1080p")).getD first
      (credits * viduCreditToCny, "CNY")
  | .video =>
      let table :=
        (viduVideoCreditsPerSecond.lookup (textOr params.model "viduq3-turbo")).getD defaultViduVideoRow
      let perSec := (table.lookup (textOr (some resKey) "720p")).getD ((table.lookup "720p").getD 25)
      (secondsOr params.durationSeconds 5 * perSec * viduCreditToCny, "CNY")
  | .text | .audio => (0, "CNY")

def calculateViduCost (casing : Casing) (params : PricingParams) : Cost :=
  match params.usageTokens with
  | some credits =>
      if 0 ≤ credits then (credits * viduCreditToCny, "CNY") else viduTableCost casing params
  | none => viduTableCost casing params

end Vidu

def calculatePricing (casing : Casing) (pricing : Pricing) (params : PricingParams) : Option Cost :=
  match pricing with
  | .perToken table => perToken table params
  | .perImageFlat table => perImageFlat table params
  | .perImageByResolution table => perImageByResolution casing table params
  | .perImageOpenAIToken tokenRates fallback => perImageOpenAIToken tokenRates fallback params
  | .perSecondMatrix table dimensions defaultResolution =>
      perSecondMatrix casing table dimensions defaultResolution params
  | .perSecondTiered table => perSecondTiered casing table params
  | .perVideoBucket table => perVideoBucket casing table params
  | .perTokenVideo table => perTokenVideo table params
  | .perCharacter table => perCharacter table params
  | .viduDelegate => some (calculateViduCost casing params)

section Lookup

structure ModelInfo where
  mediaType : CallType
  default : Bool
  pricing : Option Pricing

/-- `PROVIDER_REGISTRY`: the models of every provider. -/
abbrev Registry : Type := Dict String (Dict String ModelInfo)

def ownTableProviders : List String := ["ark", "grok", "openai", "dashscope", "minimax", "kling", "agnes"]

/-- The input and output rates of a model of `_ANTHROPIC_PRICING`. -/
def anthropicRates : List (String × Nat × Nat) := [
  ("claude-sonnet-4", 3, 15), ("claude-sonnet-4-20250514", 3, 15), ("claude-sonnet-4.5", 3, 15),
  ("claude-sonnet-4-5", 3, 15), ("claude-sonnet-4-6", 3, 15), ("claude-haiku-4-5", 1, 5),
  ("claude-haiku-4-5-20251001", 1, 5), ("claude-haiku-4-20250514", 1, 5), ("claude-opus-4", 15, 75),
  ("claude-opus-4-6", 15, 75), ("claude-opus-4-7", 15, 75)]

def anthropicPricing : Pricing :=
  .perToken {
    rates := anthropicRates.foldl (fun rates (model, input, output) =>
      rates.set model ((Dict.empty.set "input" (input : NNRat)).set "output" (output : NNRat))) .empty
    defaultModel := "claude-sonnet-4"
    currency := "USD" }

variable (registry : Registry)

def defaultModelForProvider (providerId : String) (mediaType : CallType) : Option String := do
  let models ← registry.get? providerId
  let entry ← models.entries.find? fun entry => entry.2.mediaType = mediaType && entry.2.default
  return entry.1

/-- The declared price of a model of the right type. -/
def namedPricing (models : Dict String ModelInfo) (mediaType : CallType) (model : String) : Option Pricing := do
  let info ← models.get? model
  if info.mediaType = mediaType then info.pricing else none

def geminiDefaultPricingFor (mediaType : CallType) (model : Option String) : Option Pricing := do
  let aistudio ← registry.get? "gemini-aistudio"
  let usual := [mediaType, .text].findSome? fun media => do
    let modelId ← defaultModelForProvider registry "gemini-aistudio" media
    let info ← aistudio.get? modelId
    info.pricing
  match model with
  | none => usual
  | some model =>
    match namedPricing aistudio mediaType model with
    | some pricing => pricing
    | none =>
      let vertex ← registry.get? "gemini-vertex"
      match namedPricing vertex mediaType model with
      | some pricing => pricing
      | none => usual

def lookupPricing (provider : String) (model : Option String) (mediaType : CallType) : Option Pricing :=
  if provider = "anthropic" then some anthropicPricing
  else if provider = "vidu" then some .viduDelegate
  else
    match registry.get? provider with
    | none => geminiDefaultPricingFor registry mediaType model
    | some models =>
      match model.bind (namedPricing models mediaType) with
      | some pricing => some pricing
      | none =>
        let ofDefault := do
          let defaultModel ← defaultModelForProvider registry provider mediaType
          let info ← models.get? defaultModel
          info.pricing
        if provider ∈ ownTableProviders then
          match ofDefault with
          | some pricing => some pricing
          | none => geminiDefaultPricingFor registry mediaType model
        else geminiDefaultPricingFor registry mediaType model

end Lookup

section Calculator

/-- `CustomProviderPrice`. -/
structure CustomPrice where
  priceInput : Option ℚ
  priceOutput : Option ℚ
  currency : Option String

def isCustomProvider (providerId : String) : Bool := decide ("custom-".toList <+: providerId.toList)

def arkTokensPerSecondEstimate : Int := 60000

def calculateCustomCost (params : PricingParams) (price : CustomPrice) : Cost :=
  match price.priceInput with
  | none => (0, "USD")
  | some priceInput =>
    let currency := textOr price.currency "USD"
    match params.callType with
    | .text =>
        ((count params.inputTokens * priceInput + count params.outputTokens * price.priceOutput.getD 0) / million,
          currency)
    | .image => (priceInput, currency)
    | .video => (secondsOr params.durationSeconds 8 * priceInput, currency)
    | .audio => (count params.usageTokens / charactersPerPricingUnit * priceInput, currency)

/-- The duration and the tokens with which a price is asked for its cost. -/
def settledParams (pricing : Pricing) (params : PricingParams) (estimateOnly : Bool) : PricingParams :=
  match pricing, params.durationSeconds with
  | .perSecondMatrix .., none | .perSecondMatrix .., some 0 | .perSecondTiered .., none
  | .perSecondTiered .., some 0 => { params with durationSeconds := some 8 }
  | .perTokenVideo _, some seconds =>
      if estimateOnly ∧ params.usageTokens = none ∧ seconds ≠ 0 then
        { params with usageTokens := some (seconds * arkTokensPerSecondEstimate) }
      else params
  | _, _ => params

def calculateCost (registry : Registry) (casing : Casing) (provider : String) (params : PricingParams)
    (price : CustomPrice) (estimateOnly : Bool) : Option Cost :=
  if isCustomProvider provider then some (calculateCustomCost params price)
  else if params.callType = .text ∧ params.inputTokens = none then some (0, "USD")
  else do
    let pricing ← lookupPricing registry provider params.model params.callType
    calculatePricing casing pricing (settledParams pricing params estimateOnly)

end Calculator

end ArcReel.Quote
