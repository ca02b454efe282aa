import ArcReel.Quote.Pricing
import ArcReel.Lib.Nearest

/-! `services/cost_estimation.py`: the quote of a video request, and the video estimates that the cost page
shows for the segments of a storyboard and for reference units. -/

namespace ArcReel.Quote
open Lib

section Quote

structure VideoRequestCostFacts where
  providerId : String
  modelId : String
  resolution : Option String
  durationSeconds : Int
  generateAudio : Bool

structure VideoRequestQuote where
  amount : ℚ
  currency : String
  providerId : String
  modelId : String
  requestDurationSeconds : Int

def VideoRequestQuote.withoutNewVideoCharge (quote : VideoRequestQuote) : VideoRequestQuote :=
  { quote with amount := 0 }

/-- `round(amount, 6)`. -/
def round6 (amount : ℚ) : ℚ := roundHalfEven (amount * million) / million

def VideoRequestCostFacts.params (facts : VideoRequestCostFacts) : PricingParams where
  callType := .video
  model := some facts.modelId
  resolution := facts.resolution
  durationSeconds := some facts.durationSeconds
  generateAudio := facts.generateAudio

/-- The declared prices, and the case of texts. -/
structure Declared where
  registry : Registry
  casing : Casing

def quoteVideoRequestFromPrice (declared : Declared) (facts : VideoRequestCostFacts) (price : CustomPrice) :
    Option VideoRequestQuote :=
  (calculateCost declared.registry declared.casing facts.providerId facts.params price true).map fun cost =>
    ⟨round6 cost.1, cost.2, facts.providerId, facts.modelId, facts.durationSeconds⟩

end Quote

section Page

/-- A breakdown by currency. -/
abbrev Estimate : Type := Dict String ℚ

/-- `_add_cost`. -/
def addCost (target : Estimate) (amount : ℚ) (currency : String) : Estimate :=
  if amount ≤ 0 then target
  else target.set currency (round6 ((target.get? currency).getD 0 + amount))

/-- The estimate of a cost; one whose calculation fails is left out. -/
def costEstimate : Option Cost → Estimate
  | none => .empty
  | some cost => addCost .empty cost.1 cost.2

inductive VideoCapability where
  | i2v
  | r2v

structure VideoIdentity where
  provider : String
  model : String
  resolution : Option String
  generateAudio : Bool

/-- What `compute` has resolved before it prices videos. -/
structure CostPage where
  declared : Declared
  resolvePrice : String × String → CustomPrice
  videoIdentity : VideoCapability → VideoIdentity

namespace CostPage

def modelOf (page : CostPage) (capability : VideoCapability) : String × String :=
  ((page.videoIdentity capability).provider, (page.videoIdentity capability).model)

def videoPrices (page : CostPage) : Dict (String × String) CustomPrice :=
  [VideoCapability.i2v, .r2v].foldl (fun prices capability =>
    let model := page.modelOf capability
    if model ∈ prices.keys then prices else prices.set model (page.resolvePrice model)) .empty

def segmentFacts (page : CostPage) (duration : Int) : VideoRequestCostFacts :=
  let video := page.videoIdentity .i2v
  ⟨video.provider, video.model, video.resolution, duration, video.generateAudio⟩

/-- The estimate of a segment; `none` if the price of the model has not been looked up. -/
def segmentEstimate (page : CostPage) (duration : Int) : Option Estimate :=
  (page.videoPrices.get? (page.modelOf .i2v)).map fun price =>
    let facts := page.segmentFacts duration
    costEstimate (calculateCost page.declared.registry page.declared.casing facts.providerId facts.params
      price false)

/-- `video_request_reuses_current_visual`. -/
def reusesCurrentVisual (requestDuration : Int) (currentReusable : Option Int) : Bool :=
  currentReusable = some requestDuration

/-- The estimate of a unit whose request is allowed, and the quote that is shown with it. -/
def unitEstimate (page : CostPage) (facts : VideoRequestCostFacts) (useTts : Bool)
    (currentReusable : Option Int) : Estimate × Option VideoRequestQuote :=
  match page.videoPrices.get? (facts.providerId, facts.modelId) with
  | none => (.empty, none)
  | some price =>
    match quoteVideoRequestFromPrice page.declared facts price with
    | none => (.empty, none)
    | some priced =>
      if useTts then
        let request := if reusesCurrentVisual facts.durationSeconds currentReusable then
          priced.withoutNewVideoCharge else priced
        (if 0 < request.amount then addCost .empty priced.amount priced.currency else .empty, some request)
      else (addCost .empty priced.amount priced.currency, none)

end CostPage

/-- What the cost page prices a video for. -/
inductive PageItem where
  | segment (duration : Int)
  | unit (facts : VideoRequestCostFacts) (useTts : Bool) (currentReusable : Option Int)

namespace PageItem

def facts (page : CostPage) : PageItem → VideoRequestCostFacts
  | segment duration => page.segmentFacts duration
  | unit facts _ _ => facts

def estimate (page : CostPage) : PageItem → Option Estimate
  | segment duration => page.segmentEstimate duration
  | unit facts useTts currentReusable => some (page.unitEstimate facts useTts currentReusable).1

/-- A unit whose narrated video is there already asks for no new one. -/
def reuses : PageItem → Bool
  | segment _ => false
  | unit facts useTts currentReusable =>
      useTts && CostPage.reusesCurrentVisual facts.durationSeconds currentReusable

/-- A positive duration, and a model that one of the two capabilities has. -/
def Asked (page : CostPage) (item : PageItem) : Prop :=
  0 < (item.facts page).durationSeconds ∧
    ∃ capability, page.modelOf capability = ((item.facts page).providerId, (item.facts page).modelId)

/-- The quote that the page shows besides its estimate. -/
def requestCost (page : CostPage) : PageItem → Option VideoRequestQuote
  | segment _ => none
  | unit facts useTts currentReusable => (page.unitEstimate facts useTts currentReusable).2

def quote (page : CostPage) (item : PageItem) : Option VideoRequestQuote :=
  quoteVideoRequestFromPrice page.declared (item.facts page)
    (page.resolvePrice ((item.facts page).providerId, (item.facts page).modelId))

end PageItem

/-- The estimate is the amount of the quote, in its currency; it is nothing if there is no quote. -/
def Shows (shown : Estimate) : Option VideoRequestQuote → Prop
  | none => shown = .empty
  | some quote => ∀ currency,
      (shown.get? currency).getD 0 = if currency = quote.currency then quote.amount else 0

end Page

section Amounts

theorem million_pos : 0 < million := by norm_num [million]

theorem round6_nonneg_iff {amount : ℚ} : 0 ≤ round6 amount ↔ -(1 / 2) ≤ amount * million := by
  rw [round6, le_div_iff₀ million_pos, zero_mul, Int.cast_nonneg_iff, roundHalfEven_nonneg_iff]

theorem round6_nonpos_iff {amount : ℚ} : round6 amount ≤ 0 ↔ amount * million ≤ 1 / 2 := by
  rw [round6, div_le_iff₀ million_pos, zero_mul, Int.cast_nonpos, roundHalfEven_nonpos_iff]

theorem round6_round6 (amount : ℚ) : round6 (round6 amount) = round6 amount := by
  have back : round6 amount * million = roundHalfEven (amount * million) :=
    div_mul_cancel₀ _ million_pos.ne'
  rw [round6, back, roundHalfEven_intCast]
  rfl

theorem get?_addCost (amount : ℚ) (currency other : String) :
    (((addCost .empty amount currency).get? other).getD 0 : ℚ) =
      if other = currency ∧ 0 < amount then round6 amount else 0 := by
  unfold addCost
  split
  next nothing =>
    rw [if_neg fun both => absurd both.2 (not_lt.mpr nothing)]
    rfl
  next some_ =>
    rw [Dict.get?_empty, Option.getD_none, zero_add, Dict.get?_set]
    by_cases same : other = currency
    · rw [if_pos same, if_pos ⟨same, not_le.mp some_⟩]
      rfl
    · rw [if_neg same, if_neg fun both => same both.1]
      rfl

/-- An estimate shows a quote of its amount unless the amount is negative. -/
theorem shows_addCost {amount : ℚ} {quote : VideoRequestQuote} (same : quote.amount = round6 amount) :
    Shows (addCost .empty amount quote.currency) (some quote) ↔ -(1 / 2) ≤ amount * million := by
  rw [← round6_nonneg_iff, ← same]
  simp only [Shows, get?_addCost]
  constructor
  · intro shows_
    have own := shows_ quote.currency
    rw [if_pos rfl] at own
    rw [← own]
    split
    next positive =>
      rw [round6_nonneg_iff]
      have := mul_pos positive.2 million_pos
      linarith
    next => exact le_rfl
  · intro nonneg other
    by_cases isOwn : other = quote.currency
    · rw [if_pos isOwn]
      by_cases positive : 0 < amount
      · rw [if_pos ⟨isOwn, positive⟩, same]
      · rw [if_neg fun both => positive both.2]
        apply le_antisymm nonneg
        rw [same, round6_nonpos_iff]
        have := mul_nonpos_of_nonpos_of_nonneg (not_lt.mp positive) million_pos.le
        linarith
    · rw [if_neg isOwn, if_neg fun both => isOwn both.1]

/-- An empty estimate shows a quote of nothing only. -/
theorem shows_empty {quote : VideoRequestQuote} : Shows .empty (some quote) ↔ quote.amount = 0 := by
  simp only [Shows, Dict.get?_empty, Option.getD_none]
  constructor
  · intro shows_
    have own := shows_ quote.currency
    rw [if_pos rfl] at own
    exact own.symm
  · intro nothing other
    rw [nothing, ite_self]

end Amounts

section Costs

/-- All the numbers that a call is priced by. -/
def PricingParams.counts (params : PricingParams) : List (Option Int) :=
  [params.durationSeconds, params.usageTokens, params.inputTokens, params.outputTokens,
    params.imageInputTokens, params.imageOutputTokens, params.textInputTokens, params.textOutputTokens,
    some params.n]

def PricingParams.Nonneg (params : PricingParams) : Prop :=
  ∀ tokens ∈ params.counts, ∀ number ∈ tokens, 0 ≤ number

variable {casing : Casing} {params : PricingParams} {cost : Cost}

theorem count_nonneg (nonneg : params.Nonneg) {tokens : Option Int} (member : tokens ∈ params.counts) :
    0 ≤ count tokens := by
  cases tokens with
  | none => exact le_of_eq Int.cast_zero.symm
  | some number => exact Int.cast_nonneg (nonneg _ member number rfl)

theorem n_nonneg (nonneg : params.Nonneg) : (0 : ℚ) ≤ params.n :=
  Int.cast_nonneg (nonneg (some params.n) (by simp [PricingParams.counts]) params.n rfl)

theorem duration_nonneg (nonneg : params.Nonneg) {usual : Int} (positive : 0 ≤ usual) :
    (0 : ℚ) ≤ (params.durationSeconds.getD usual : Int) := by
  apply Int.cast_nonneg
  cases given : params.durationSeconds with
  | none => exact positive
  | some seconds =>
    exact nonneg (some seconds) (by rw [← given]; exact List.mem_cons_self) seconds rfl

theorem perToken_nonneg {table : RateTable (Dict String NNRat)} (nonneg : params.Nonneg)
    (priced : perToken table params = some cost) : 0 ≤ cost.1 := by
  obtain ⟨input, -, priced⟩ := Option.bind_eq_some_iff.mp priced
  obtain ⟨output, -, priced⟩ := Option.bind_eq_some_iff.mp priced
  rw [← Option.some.inj priced]
  have first : 0 ≤ count params.inputTokens := count_nonneg nonneg (by simp [PricingParams.counts])
  have second : 0 ≤ count params.outputTokens := count_nonneg nonneg (by simp [PricingParams.counts])
  exact div_nonneg (add_nonneg (mul_nonneg first input.2) (mul_nonneg second output.2)) million_pos.le

theorem perImageFlat_nonneg {table : RateTable NNRat} (nonneg : params.Nonneg)
    (priced : perImageFlat table params = some cost) : 0 ≤ cost.1 := by
  obtain ⟨perImage, -, priced⟩ := Option.bind_eq_some_iff.mp priced
  rw [← Option.some.inj priced]
  exact mul_nonneg perImage.2 (n_nonneg nonneg)

theorem perImageByResolution_nonneg {table : RateTable (Dict String NNRat)} (nonneg : params.Nonneg)
    (priced : perImageByResolution casing table params = some cost) : 0 ≤ cost.1 := by
  obtain ⟨modelCosts, -, priced⟩ := Option.bind_eq_some_iff.mp priced
  obtain ⟨fallback, -, priced⟩ := Option.bind_eq_some_iff.mp priced
  rw [← Option.some.inj priced]
  exact mul_nonneg (NNRat.cast_nonneg _) (n_nonneg nonneg)

theorem perImageOpenAIToken_nonneg {tokenRates : Dict String (Dict String NNRat)}
    {fallback : RateTable (Dict (String × String) NNRat)} (nonneg : params.Nonneg)
    (priced : perImageOpenAIToken tokenRates fallback params = some cost) : 0 ≤ cost.1 := by
  unfold perImageOpenAIToken at priced
  split at priced
  next =>
    obtain ⟨rates, -, priced⟩ := Option.bind_eq_some_iff.mp priced
    obtain ⟨imageIn, -, priced⟩ := Option.bind_eq_some_iff.mp priced
    obtain ⟨imageOut, -, priced⟩ := Option.bind_eq_some_iff.mp priced
    obtain ⟨textIn, -, priced⟩ := Option.bind_eq_some_iff.mp priced
    obtain ⟨textOut, -, priced⟩ := Option.bind_eq_some_iff.mp priced
    rw [← Option.some.inj priced]
    have first : 0 ≤ count params.imageInputTokens := count_nonneg nonneg (by simp [PricingParams.counts])
    have second : 0 ≤ count params.imageOutputTokens := count_nonneg nonneg (by simp [PricingParams.counts])
    have third : 0 ≤ count params.textInputTokens := count_nonneg nonneg (by simp [PricingParams.counts])
    have fourth : 0 ≤ count params.textOutputTokens := count_nonneg nonneg (by simp [PricingParams.counts])
    exact div_nonneg (add_nonneg (add_nonneg (add_nonneg (mul_nonneg first imageIn.2)
      (mul_nonneg second imageOut.2)) (mul_nonneg third textIn.2)) (mul_nonneg fourth textOut.2)) million_pos.le
  next =>
    obtain ⟨modelCosts, -, priced⟩ := Option.bind_eq_some_iff.mp priced
    rw [← Option.some.inj priced]
    exact mul_nonneg (NNRat.cast_nonneg _) (n_nonneg nonneg)

theorem perSecondMatrix_nonneg {table : RateTable (Dict (String × Option Bool) NNRat)}
    {dimensions : Dimensions} {defaultResolution : String} (nonneg : params.Nonneg)
    (priced : perSecondMatrix casing table dimensions defaultResolution params = some cost) :
    0 ≤ cost.1 := by
  obtain ⟨modelCosts, -, priced⟩ := Option.bind_eq_some_iff.mp priced
  obtain ⟨defaultCosts, -, priced⟩ := Option.bind_eq_some_iff.mp priced
  rw [← Option.some.inj priced]
  exact mul_nonneg (duration_nonneg nonneg (by decide)) (NNRat.cast_nonneg _)

theorem perSecondTiered_nonneg {table : RateTable (Dict (String × Bool) NNRat)} (nonneg : params.Nonneg)
    (priced : perSecondTiered casing table params = some cost) : 0 ≤ cost.1 := by
  obtain ⟨modelRates, -, priced⟩ := Option.bind_eq_some_iff.mp priced
  rw [← Option.some.inj priced]
  exact mul_nonneg (duration_nonneg nonneg (by decide)) (NNRat.cast_nonneg _)

theorem perVideoBucket_nonneg {table : RateTable (Dict (String × Int) NNRat)}
    (priced : perVideoBucket casing table params = some cost) : 0 ≤ cost.1 := by
  obtain ⟨modelBuckets, -, priced⟩ := Option.bind_eq_some_iff.mp priced
  dsimp only at priced
  split at priced
  next found =>
    rw [← Option.some.inj priced]
    exact NNRat.cast_nonneg _
  next =>
    obtain ⟨nearest, -, priced⟩ := Option.bind_eq_some_iff.mp priced
    rw [← Option.some.inj priced]
    exact NNRat.cast_nonneg _

theorem perTokenVideo_nonneg {table : RateTable (Dict (String × Bool) NNRat)} (nonneg : params.Nonneg)
    (priced : perTokenVideo table params = some cost) : 0 ≤ cost.1 := by
  obtain ⟨price, -, priced⟩ := Option.bind_eq_some_iff.mp priced
  rw [← Option.some.inj priced]
  have usage : 0 ≤ count params.usageTokens := count_nonneg nonneg (by simp [PricingParams.counts])
  exact mul_nonneg (div_nonneg usage million_pos.le) price.2

theorem perCharacter_nonneg {table : RateTable NNRat} (nonneg : params.Nonneg)
    (priced : perCharacter table params = some cost) : 0 ≤ cost.1 := by
  rw [← Option.some.inj priced]
  have usage : 0 ≤ count params.usageTokens := count_nonneg nonneg (by simp [PricingParams.counts])
  have unit_ : (0 : ℚ) ≤ charactersPerPricingUnit := by norm_num [charactersPerPricingUnit]
  exact mul_nonneg (div_nonneg usage unit_) (NNRat.cast_nonneg _)

theorem calculateViduCost_nonneg (nonneg : params.Nonneg) : 0 ≤ (calculateViduCost casing params).1 := by
  have credit : 0 ≤ viduCreditToCny := by norm_num [viduCreditToCny]
  have table : 0 ≤ (viduTableCost casing params).1 := by
    simp only [viduTableCost]
    cases params.callType with
    | image => exact mul_nonneg (Nat.cast_nonneg _) credit
    | video =>
      refine mul_nonneg (mul_nonneg (Int.cast_nonneg ?_) (Nat.cast_nonneg _)) credit
      unfold secondsOr
      split
      next => decide
      next => decide
      next given => exact nonneg _ List.mem_cons_self _ given
    | text => exact le_rfl
    | audio => exact le_rfl
  unfold calculateViduCost
  split
  next =>
    split
    next positive => exact mul_nonneg (Int.cast_nonneg positive) credit
    next => exact table
  next => exact table

/-- No declared price has a negative cost. -/
theorem calculatePricing_nonneg {pricing : Pricing} (nonneg : params.Nonneg)
    (priced : calculatePricing casing pricing params = some cost) : 0 ≤ cost.1 := by
  cases pricing with
  | perToken table => exact perToken_nonneg nonneg priced
  | perImageFlat table => exact perImageFlat_nonneg nonneg priced
  | perImageByResolution table => exact perImageByResolution_nonneg nonneg priced
  | perImageOpenAIToken tokenRates fallback => exact perImageOpenAIToken_nonneg nonneg priced
  | perSecondMatrix table dimensions defaultResolution => exact perSecondMatrix_nonneg nonneg priced
  | perSecondTiered table => exact perSecondTiered_nonneg nonneg priced
  | perVideoBucket table => exact perVideoBucket_nonneg priced
  | perTokenVideo table => exact perTokenVideo_nonneg nonneg priced
  | perCharacter table => exact perCharacter_nonneg nonneg priced
  | viduDelegate =>
    rw [← Option.some.inj priced]
    exact calculateViduCost_nonneg nonneg

end Costs

section Agreement

theorem get?_videoPrices (page : CostPage) (capability : VideoCapability) :
    page.videoPrices.get? (page.modelOf capability) = some (page.resolvePrice (page.modelOf capability)) := by
  have prices : page.videoPrices =
      if page.modelOf .r2v ∈ (Dict.empty.set (page.modelOf .i2v) (page.resolvePrice (page.modelOf .i2v))).keys
      then Dict.empty.set (page.modelOf .i2v) (page.resolvePrice (page.modelOf .i2v))
      else (Dict.empty.set (page.modelOf .i2v) (page.resolvePrice (page.modelOf .i2v))).set
        (page.modelOf .r2v) (page.resolvePrice (page.modelOf .r2v)) := rfl
  have keys : ∀ model, model ∈ (Dict.empty.set (page.modelOf .i2v)
      (page.resolvePrice (page.modelOf .i2v))).keys ↔ model = page.modelOf .i2v := by
    intro model
    rw [Dict.mem_keys_set]
    exact or_iff_right List.not_mem_nil
  rw [prices]
  split
  next known =>
    have same : page.modelOf capability = page.modelOf .i2v := by
      cases capability with
      | i2v => rfl
      | r2v => exact (keys _).mp known
    rw [same, Dict.get?_set, if_pos rfl]
  next new =>
    rw [keys] at new
    cases capability with
    | i2v => rw [Dict.get?_set, if_neg fun same => new same.symm, Dict.get?_set, if_pos rfl]
    | r2v => rw [Dict.get?_set, if_pos rfl]

theorem params_nonneg {facts : VideoRequestCostFacts} (positive : 0 < facts.durationSeconds) :
    facts.params.Nonneg := by
  intro tokens member number given
  simp only [PricingParams.counts, VideoRequestCostFacts.params, List.mem_cons, List.not_mem_nil,
    or_false] at member
  rcases member with rfl | rfl | rfl | rfl | rfl | rfl | rfl | rfl | rfl <;>
    simp only [Option.mem_def, Option.some.injEq, reduceCtorEq] at given <;> omega

/-- Only the price of a video by tokens is asked differently for an estimate. -/
theorem settled_eq {pricing : Pricing} (other : ∀ table, pricing ≠ .perTokenVideo table)
    {facts : VideoRequestCostFacts} (positive : 0 < facts.durationSeconds) (estimateOnly : Bool) :
    settledParams pricing facts.params estimateOnly = facts.params := by
  have given : facts.params.durationSeconds = some facts.durationSeconds := rfl
  unfold settledParams
  split
  next same => rw [given] at same; cases same
  next same =>
    rw [given, Option.some.injEq] at same
    omega
  next same => rw [given] at same; cases same
  next same =>
    rw [given, Option.some.injEq] at same
    omega
  next => exact absurd rfl (other _)
  next => rfl

/-- The cost of a video request at a declared price. -/
theorem calculateCost_declared {declared : Declared} {facts : VideoRequestCostFacts} (price : CustomPrice)
    (declaredPrice : isCustomProvider facts.providerId = false) (estimateOnly : Bool) :
    calculateCost declared.registry declared.casing facts.providerId facts.params price estimateOnly =
      (lookupPricing declared.registry facts.providerId (some facts.modelId) .video).bind fun pricing =>
        calculatePricing declared.casing pricing (settledParams pricing facts.params estimateOnly) := by
  unfold calculateCost
  rw [declaredPrice, if_neg Bool.false_ne_true, if_neg fun both => nomatch both.1]
  rfl

theorem secondsOr_some {seconds usual : Int} (positive : 0 < seconds) :
    secondsOr (some seconds) usual = seconds := by
  unfold secondsOr
  split
  next none_ => cases none_
  next zero =>
    rw [Option.some.injEq] at zero
    omega
  next same => exact (Option.some.inj same).symm

theorem calculateCost_custom {declared : Declared} {facts : VideoRequestCostFacts} (price : CustomPrice)
    (custom : isCustomProvider facts.providerId = true) (positive : 0 < facts.durationSeconds)
    (estimateOnly : Bool) :
    calculateCost declared.registry declared.casing facts.providerId facts.params price estimateOnly =
      some (match price.priceInput with
        | none => (0, "USD")
        | some priceInput => (facts.durationSeconds * priceInput, textOr price.currency "USD")) := by
  unfold calculateCost
  rw [if_pos custom]
  unfold calculateCustomCost
  cases price.priceInput with
  | none => rfl
  | some priceInput =>
    dsimp only [VideoRequestCostFacts.params]
    rw [secondsOr_some positive]

/-- A price by tokens asks for them; the cost without them is nothing. -/
theorem calculatePricing_perTokenVideo {declared : Declared} {facts : VideoRequestCostFacts}
    (table : RateTable (Dict (String × Bool) NNRat)) (positive : 0 < facts.durationSeconds) :
    (calculatePricing declared.casing (.perTokenVideo table)
        (settledParams (.perTokenVideo table) facts.params true) =
      (pricePerMillion table (some facts.modelId) "default" facts.generateAudio).map fun price : NNRat =>
        (facts.durationSeconds * 60000 / million * (price : ℚ), table.currency)) ∧
      calculatePricing declared.casing (.perTokenVideo table)
          (settledParams (.perTokenVideo table) facts.params false) =
        (pricePerMillion table (some facts.modelId) "default" facts.generateAudio).map fun _ =>
          (0, table.currency) := by
  have asked : settledParams (.perTokenVideo table) facts.params true =
      { facts.params with usageTokens := some (facts.durationSeconds * arkTokensPerSecondEstimate) } :=
    if_pos ⟨rfl, rfl, positive.ne'⟩
  have plain : settledParams (.perTokenVideo table) facts.params false = facts.params := by
    unfold settledParams
    exact if_neg fun all => Bool.false_ne_true all.1
  rw [asked, plain]
  constructor
  · cases found : pricePerMillion table (some facts.modelId) "default" facts.generateAudio with
    | none => exact Option.bind_eq_none_iff.mpr fun price given => nomatch found.symm.trans given
    | some price =>
      refine Option.bind_eq_some_iff.mpr ⟨price, found, ?_⟩
      simp [count, arkTokensPerSecondEstimate]
  · cases found : pricePerMillion table (some facts.modelId) "default" facts.generateAudio with
    | none => exact Option.bind_eq_none_iff.mpr fun price given => nomatch found.symm.trans given
    | some price =>
      refine Option.bind_eq_some_iff.mpr ⟨price, found, ?_⟩
      simp [count, VideoRequestCostFacts.params]

/-- When the page prices an item like its quote: a custom price is not negative, and a declared price of a
segment is not by tokens, unless it rounds to nothing. -/
def PageItem.PricedAlike (page : CostPage) (item : PageItem) : Prop :=
  let facts := item.facts page
  if isCustomProvider facts.providerId then
    ∀ priceInput ∈ (page.resolvePrice (facts.providerId, facts.modelId)).priceInput,
      -(1 / 2) ≤ facts.durationSeconds * priceInput * million
  else match item with
    | .unit .. => True
    | .segment _ =>
      match lookupPricing page.declared.registry facts.providerId (some facts.modelId) .video with
      | some (.perTokenVideo table) =>
          ∀ price ∈ pricePerMillion table (some facts.modelId) "default" facts.generateAudio,
            facts.durationSeconds * 60000 * (price : ℚ) ≤ 1 / 2
      | _ => True

/-- The cost that both sides ask for, where they ask alike. -/
def costOf (page : CostPage) (facts : VideoRequestCostFacts) (estimateOnly : Bool) : Option Cost :=
  calculateCost page.declared.registry page.declared.casing facts.providerId facts.params
    (page.resolvePrice (facts.providerId, facts.modelId)) estimateOnly

theorem quote_eq (page : CostPage) (item : PageItem) : item.quote page =
    (costOf page (item.facts page) true).map fun cost => ⟨round6 cost.1, cost.2,
      (item.facts page).providerId, (item.facts page).modelId, (item.facts page).durationSeconds⟩ := rfl

/-- A cost whose estimate is compared with its own quote. -/
theorem shows_cost {cost : Option Cost} (facts : VideoRequestCostFacts) :
    Shows (costEstimate cost) (cost.map fun cost =>
        ⟨round6 cost.1, cost.2, facts.providerId, facts.modelId, facts.durationSeconds⟩) ↔
      ∀ found ∈ cost, -(1 / 2) ≤ found.1 * million := by
  cases cost with
  | none => exact iff_of_true rfl fun found given => nomatch given
  | some cost =>
    have both := @shows_addCost cost.1
      ⟨round6 cost.1, cost.2, facts.providerId, facts.modelId, facts.durationSeconds⟩ rfl
    refine both.trans ⟨?_, fun all => all cost rfl⟩
    intro above found given
    rwa [← Option.some.inj given]

theorem segmentEstimate_eq (page : CostPage) (duration : Int) :
    page.segmentEstimate duration = some (costEstimate (costOf page (page.segmentFacts duration) false)) := by
  rw [CostPage.segmentEstimate, get?_videoPrices]
  rfl

/-- A unit that asks for a new video is estimated at its quote. -/
theorem unitEstimate_eq (page : CostPage) {facts : VideoRequestCostFacts} {useTts : Bool}
    {currentReusable : Option Int} (charged : (PageItem.unit facts useTts currentReusable).reuses = false)
    {capability : VideoCapability} (known : page.modelOf capability = (facts.providerId, facts.modelId)) :
    (page.unitEstimate facts useTts currentReusable).1 =
      costEstimate ((costOf page facts true).map fun cost => (round6 cost.1, cost.2)) := by
  have price : page.videoPrices.get? (facts.providerId, facts.modelId) =
      some (page.resolvePrice (facts.providerId, facts.modelId)) := by
    rw [← known, get?_videoPrices]
  unfold CostPage.unitEstimate
  rw [price]
  dsimp only [quoteVideoRequestFromPrice]
  cases cost : costOf page facts true with
  | none =>
    rw [costOf] at cost
    rw [cost]
    rfl
  | some cost' =>
    rw [costOf] at cost
    rw [cost]
    dsimp only [Option.map_some]
    cases useTts with
    | false => rfl
    | true =>
      have fresh : CostPage.reusesCurrentVisual facts.durationSeconds currentReusable = false := charged
      rw [if_pos rfl, fresh, if_neg Bool.false_ne_true]
      dsimp only
      split
      next => rfl
      next nothing =>
        dsimp only [Option.map_some, costEstimate]
        rw [addCost, if_pos (not_lt.mp nothing)]

/-- Rounding a cost first does not change what its estimate shows. -/
theorem shows_rounded {cost : Option Cost} (facts : VideoRequestCostFacts) :
    Shows (costEstimate (cost.map fun cost => (round6 cost.1, cost.2))) (cost.map fun cost =>
        ⟨round6 cost.1, cost.2, facts.providerId, facts.modelId, facts.durationSeconds⟩) ↔
      ∀ found ∈ cost, -(1 / 2) ≤ found.1 * million := by
  cases cost with
  | none => exact iff_of_true rfl fun found given => nomatch given
  | some cost =>
    have both := @shows_addCost (round6 cost.1)
      ⟨round6 cost.1, cost.2, facts.providerId, facts.modelId, facts.durationSeconds⟩
      (round6_round6 cost.1).symm
    rw [← round6_nonneg_iff, round6_round6, round6_nonneg_iff] at both
    refine both.trans ⟨?_, fun all => all cost rfl⟩
    intro above found given
    rwa [← Option.some.inj given]

/-- A cost at a declared price is not negative. -/
theorem costOf_nonneg {page : CostPage} {facts : VideoRequestCostFacts}
    (declaredPrice : isCustomProvider facts.providerId = false) (positive : 0 < facts.durationSeconds)
    {cost : Cost} (priced : costOf page facts true = some cost) : 0 ≤ cost.1 := by
  rw [costOf, calculateCost_declared _ declaredPrice] at priced
  obtain ⟨pricing, -, priced⟩ := Option.bind_eq_some_iff.mp priced
  by_cases byTokens : ∃ table, pricing = .perTokenVideo table
  · obtain ⟨table, same⟩ := byTokens
    rw [same, (calculatePricing_perTokenVideo table positive).1] at priced
    obtain ⟨price, -, same⟩ := Option.map_eq_some_iff.mp priced
    rw [← same]
    have seconds : (0 : ℚ) ≤ facts.durationSeconds := Int.cast_nonneg positive.le
    exact mul_nonneg (div_nonneg (mul_nonneg seconds (by norm_num)) million_pos.le) price.2
  · rw [settled_eq (fun table same => byTokens ⟨table, same⟩) positive] at priced
    exact calculatePricing_nonneg (params_nonneg positive) priced

theorem above_of_nonneg {amount : ℚ} (nonneg : 0 ≤ amount) : -(1 / 2) ≤ amount * million := by
  have := mul_nonneg nonneg million_pos.le
  linarith

/-- With a custom price both sides ask for the same cost. -/
theorem costOf_custom {page : CostPage} {facts : VideoRequestCostFacts}
    (custom : isCustomProvider facts.providerId = true) (positive : 0 < facts.durationSeconds) :
    costOf page facts false = costOf page facts true ∧
      ((∀ found ∈ costOf page facts true, -(1 / 2) ≤ found.1 * million) ↔
        ∀ priceInput ∈ (page.resolvePrice (facts.providerId, facts.modelId)).priceInput,
          -(1 / 2) ≤ facts.durationSeconds * priceInput * million) := by
  simp only [costOf, calculateCost_custom _ custom positive, true_and]
  cases (page.resolvePrice (facts.providerId, facts.modelId)).priceInput with
  | none =>
    refine iff_of_true ?_ fun priceInput given => nomatch given
    intro found given
    rw [← Option.some.inj given]
    exact above_of_nonneg le_rfl
  | some priceInput => simp

/-- The parts of a price by tokens that matter for a segment. -/
theorem shows_byTokens {page : CostPage} {facts : VideoRequestCostFacts}
    (declaredPrice : isCustomProvider facts.providerId = false) (positive : 0 < facts.durationSeconds)
    {table : RateTable (Dict (String × Bool) NNRat)}
    (found : lookupPricing page.declared.registry facts.providerId (some facts.modelId) .video =
      some (.perTokenVideo table)) :
    Shows (costEstimate (costOf page facts false)) ((costOf page facts true).map fun cost =>
        ⟨round6 cost.1, cost.2, facts.providerId, facts.modelId, facts.durationSeconds⟩) ↔
      ∀ price ∈ pricePerMillion table (some facts.modelId) "default" facts.generateAudio,
        facts.durationSeconds * 60000 * (price : ℚ) ≤ 1 / 2 := by
  have costs := @calculatePricing_perTokenVideo page.declared facts table positive
  have plain : costOf page facts false =
      (pricePerMillion table (some facts.modelId) "default" facts.generateAudio).map fun _ =>
        (0, table.currency) := by
    rw [costOf, calculateCost_declared _ declaredPrice, found, Option.bind_some, costs.2]
  have asked : costOf page facts true =
      (pricePerMillion table (some facts.modelId) "default" facts.generateAudio).map fun price : NNRat =>
        (facts.durationSeconds * 60000 / million * (price : ℚ), table.currency) := by
    rw [costOf, calculateCost_declared _ declaredPrice, found, Option.bind_some, costs.1]
  rw [plain, asked]
  cases pricePerMillion table (some facts.modelId) "default" facts.generateAudio with
  | none => exact iff_of_true rfl fun price given => nomatch given
  | some price =>
    have nothing : addCost .empty 0 table.currency = .empty := if_pos le_rfl
    have seconds : (0 : ℚ) ≤ facts.durationSeconds := Int.cast_nonneg positive.le
    have nonneg : 0 ≤ facts.durationSeconds * 60000 / million * (price : ℚ) :=
      mul_nonneg (div_nonneg (mul_nonneg seconds (by norm_num)) million_pos.le) price.2
    have scaled : facts.durationSeconds * 60000 / million * (price : ℚ) * million =
        facts.durationSeconds * 60000 * (price : ℚ) := by
      rw [mul_right_comm, div_mul_cancel₀ _ million_pos.ne']
    simp only [Option.map_some, costEstimate, nothing, shows_empty, Option.mem_some_iff, forall_eq']
    rw [← scaled, ← round6_nonpos_iff]
    exact ⟨fun zero => zero.le, fun below => le_antisymm below (round6_nonneg_iff.mpr (above_of_nonneg nonneg))⟩

theorem segment_shows_iff (page : CostPage) {duration : Int} (positive : 0 < duration) :
    Shows (costEstimate (costOf page (page.segmentFacts duration) false))
        ((PageItem.segment duration).quote page) ↔
      (PageItem.segment duration).PricedAlike page := by
  have positive' : 0 < (page.segmentFacts duration).durationSeconds := positive
  rw [quote_eq]
  unfold PageItem.PricedAlike
  dsimp only [PageItem.facts]
  cases custom : isCustomProvider (page.segmentFacts duration).providerId with
  | true =>
    obtain ⟨same, conditions⟩ := costOf_custom custom positive'
    rw [same, shows_cost, conditions, if_pos rfl]
  | false =>
    rw [if_neg Bool.false_ne_true]
    have declared := @calculateCost_declared page.declared (page.segmentFacts duration)
      (page.resolvePrice ((page.segmentFacts duration).providerId, (page.segmentFacts duration).modelId)) custom
    have alike : (∀ pricing ∈ lookupPricing page.declared.registry (page.segmentFacts duration).providerId
        (some (page.segmentFacts duration).modelId) .video, ∀ table, pricing ≠ .perTokenVideo table) →
        Shows (costEstimate (costOf page (page.segmentFacts duration) false))
          ((costOf page (page.segmentFacts duration) true).map fun cost => ⟨round6 cost.1, cost.2,
            (page.segmentFacts duration).providerId, (page.segmentFacts duration).modelId,
            (page.segmentFacts duration).durationSeconds⟩) := by
      intro other
      have same : costOf page (page.segmentFacts duration) false =
          costOf page (page.segmentFacts duration) true := by
        rw [costOf, costOf, declared, declared]
        apply Option.bind_congr
        intro pricing found
        rw [settled_eq (other pricing found) positive', settled_eq (other pricing found) positive']
      rw [same, shows_cost]
      exact fun cost priced => above_of_nonneg (costOf_nonneg custom positive' priced)
    split
    next table found => exact shows_byTokens custom positive' found
    next other =>
      refine iff_of_true (alike ?_) trivial
      intro pricing found table same
      rw [same] at found
      exact other table found

theorem unit_shows_iff (page : CostPage) {facts : VideoRequestCostFacts} {useTts : Bool}
    {currentReusable : Option Int} (charged : (PageItem.unit facts useTts currentReusable).reuses = false)
    (asked : (PageItem.unit facts useTts currentReusable).Asked page) :
    Shows (page.unitEstimate facts useTts currentReusable).1
        ((PageItem.unit facts useTts currentReusable).quote page) ↔
      (PageItem.unit facts useTts currentReusable).PricedAlike page := by
  obtain ⟨positive, capability, known⟩ := asked
  rw [unitEstimate_eq page charged known, quote_eq]
  refine (shows_rounded facts).trans ?_
  unfold PageItem.PricedAlike
  dsimp only [PageItem.facts]
  cases custom : isCustomProvider facts.providerId with
  | true => rw [(costOf_custom custom positive).2, if_pos rfl]
  | false =>
    rw [if_neg Bool.false_ne_true]
    exact iff_of_true (fun cost priced => above_of_nonneg (costOf_nonneg custom positive priced)) trivial

/-- A unit that reuses its video is estimated at nothing, and its quote has no charge. -/
theorem unitEstimate_reused (page : CostPage) {facts : VideoRequestCostFacts} {useTts : Bool}
    {currentReusable : Option Int} (reused : (PageItem.unit facts useTts currentReusable).reuses = true)
    (asked : (PageItem.unit facts useTts currentReusable).Asked page) :
    page.unitEstimate facts useTts currentReusable = (.empty,
      ((PageItem.unit facts useTts currentReusable).quote page).map
        VideoRequestQuote.withoutNewVideoCharge) := by
  obtain ⟨-, capability, known⟩ := asked
  have both := Bool.and_eq_true_iff.mp reused
  have price : page.videoPrices.get? (facts.providerId, facts.modelId) =
      some (page.resolvePrice (facts.providerId, facts.modelId)) := by
    have known' : page.modelOf capability = (facts.providerId, facts.modelId) := known
    rw [← known', get?_videoPrices]
  unfold CostPage.unitEstimate PageItem.quote PageItem.facts
  rw [price]
  dsimp only
  cases quoteVideoRequestFromPrice page.declared facts
      (page.resolvePrice (facts.providerId, facts.modelId)) with
  | none => rfl
  | some priced =>
    have free : priced.withoutNewVideoCharge.amount = 0 := rfl
    dsimp only
    rw [if_pos both.1, if_pos both.2, free, if_neg (lt_irrefl _)]
    rfl

/-- The page shows the quote of what asks for a new video exactly if both price it alike, and it shows no
charge for what asks for none. -/
theorem page_shows_quote_iff (page : CostPage) (item : PageItem) (asked : item.Asked page) :
    ∃ shown, item.estimate page = some shown ∧
      (item.reuses = false → (Shows shown (item.quote page) ↔ item.PricedAlike page)) ∧
      (item.reuses = true → shown = .empty ∧
        item.requestCost page = (item.quote page).map VideoRequestQuote.withoutNewVideoCharge) := by
  cases item with
  | segment duration =>
    exact ⟨_, segmentEstimate_eq page duration, fun _ => segment_shows_iff page asked.1, nofun⟩
  | unit facts useTts currentReusable =>
    refine ⟨_, rfl, fun charged => unit_shows_iff page charged asked, ?_⟩
    intro reused
    rw [PageItem.requestCost, unitEstimate_reused page reused asked]
    exact ⟨rfl, rfl⟩

/-- A page whose videos are all made by one model. -/
def demoPage (registry : Registry) (price : CustomPrice) (provider model : String) : CostPage where
  declared := ⟨registry, ⟨id, id⟩⟩
  resolvePrice _ := price
  videoIdentity _ := ⟨provider, model, some "720p", true⟩

theorem page_shows_quote_iff_custom :
    let page := demoPage .empty ⟨some (1 / 2), none, some "CNY"⟩ "custom-3" "video"
    ∃ shown, (PageItem.segment 5).estimate page = some shown ∧
      Shows shown ((PageItem.segment 5).quote page) := by
  intro page
  have asked : (PageItem.segment 5).Asked page := ⟨by decide, .i2v, rfl⟩
  obtain ⟨shown, estimated, agrees, -⟩ := page_shows_quote_iff page (.segment 5) asked
  have custom : isCustomProvider ((PageItem.segment 5).facts page).providerId = true := by decide
  refine ⟨shown, estimated, (agrees rfl).mpr ?_⟩
  unfold PageItem.PricedAlike
  rw [if_pos custom]
  intro priceInput given
  rw [← Option.some.inj given]
  norm_num [million, PageItem.facts, CostPage.segmentFacts]

def tokenRates : RateTable (Dict (String × Bool) NNRat) where
  rates := Dict.empty.set "doubao-seedance-2-0-260128"
    ((Dict.empty.set ("default", true) 46).set ("default", false) 46)
  defaultModel := "doubao-seedance-2-0-260128"
  currency := "CNY"

/-- A page whose videos are priced by tokens. -/
def tokenPage : CostPage :=
  demoPage (Dict.empty.set "ark" (Dict.empty.set "doubao-seedance-2-0-260128"
      ⟨.video, false, some (.perTokenVideo tokenRates)⟩))
    ⟨none, none, none⟩ "ark" "doubao-seedance-2-0-260128"

theorem segment_by_tokens_not_shown : (PageItem.segment 5).Asked tokenPage ∧
    ∃ shown, (PageItem.segment 5).estimate tokenPage = some shown ∧
      ¬Shows shown ((PageItem.segment 5).quote tokenPage) := by
  refine ⟨⟨by decide, .i2v, rfl⟩, _, segmentEstimate_eq tokenPage 5, ?_⟩
  rw [segment_shows_iff tokenPage (by decide)]
  have declared : isCustomProvider ((PageItem.segment 5).facts tokenPage).providerId = false := by decide
  have found : lookupPricing tokenPage.declared.registry ((PageItem.segment 5).facts tokenPage).providerId
      (some ((PageItem.segment 5).facts tokenPage).modelId) .video = some (.perTokenVideo tokenRates) := rfl
  have price : pricePerMillion tokenRates (some ((PageItem.segment 5).facts tokenPage).modelId) "default"
      ((PageItem.segment 5).facts tokenPage).generateAudio = some 46 := rfl
  unfold PageItem.PricedAlike
  simp only [declared, found, price]
  intro all
  have small := all 46 rfl
  norm_num [PageItem.facts, CostPage.segmentFacts] at small

end Agreement

end ArcReel.Quote
