import Mathlib.Tactic

/-! The upload copies of reference images: a ladder of compression steps until they fit, and the
files that hold the copies. -/

namespace ArcReel.Media

/-- A reference of an array goes down the ladder; a frame keeps its size. -/
inductive RefRole where
  | array
  | frame
  deriving DecidableEq, Repr

structure PayloadLimits where
  totalMaxBytes : Int
  singleMaxBytes : Int
  deriving DecidableEq, Repr

structure ReferenceSpec where
  source : String
  label : String
  role : RefRole
  deriving DecidableEq, Repr

/-- The path of a compressed reference: its source, or the temporary copy of one index. -/
inductive RefPath where
  | source (path : String)
  | temporary (index : Nat) (name : String)
  deriving DecidableEq, Repr

/-- What the provider gets for a reference; `data` are the bytes at the path, if they were read. -/
structure CompressedRef (B : Type) where
  path : RefPath
  label : String
  role : RefRole
  data : Option B
  deriving DecidableEq, Repr

/-- The exceptions of the program: one from outside, or `ReferencePayloadFloorError`. -/
inductive Failure (E : Type) where
  | error (e : E)
  | floor (cause : Option E)
  deriving DecidableEq, Repr

/-- What happens outside of the program: the image library, the disk, the provider and the hooks,
all in a world that may also change while the images are compressed. -/
structure Environment (W E B R : Type) where
  size : B → Nat
  imageMeta : B → Except E (String × Nat)
  compressImageBytes : B → (maxLongEdge quality : Nat) → Except E B
  stem : String → String
  tryReadImage : W → String → Option B
  writeError : W → (index : Nat) → Option E
  compressing : W → W
  is413 : E → Bool
  beforeSubmit : Option (W → W × Except E Unit)
  buildAndCall : W → List (CompressedRef B) → W × Except E R
  providerResubmitIsUnsafe : Option (W → Bool)

/-- `_LADDER`: the longest edge and the quality of each step. -/
def ladder : List (Nat × Nat) := [(2048, 92), (1536, 90), (1280, 90), (1024, 88)]

/-- `LADDER_STEPS`. -/
def ladderSteps : Nat := ladder.length

/-- `_ladder_params`; beyond the ladder is the floor. -/
def ladderParams (step : Nat) : Nat × Nat := ladder.getD step (1024, 80)

def frameNoResizeEdge : Nat := 1000000

def baselineQuality : Nat := 92

def passthroughMaxBytes : Nat := 1024 * 1024

section Program

variable {W E B R : Type} (env : Environment W E B R)

/-- `compress_single_at_step`: the bytes, and whether they were encoded anew. -/
def compressSingleAtStep (raw : B) (role : RefRole) (step : Nat) (singleMaxBytes : Int) :
    Except E (B × Bool) :=
  match role with
  | .frame =>
      if (env.size raw : Int) ≤ singleMaxBytes then .ok (raw, false)
      else (env.compressImageBytes raw frameNoResizeEdge baselineQuality).map fun data => (data, true)
  | .array =>
      let (edge, quality) := ladderParams step
      let encode := (env.compressImageBytes raw edge quality).map fun data => (data, true)
      if step = 0 ∧ env.size raw ≤ passthroughMaxBytes then
        match env.imageMeta raw with
        | .error e => .error e
        | .ok (format, longEdge) =>
            if format = "JPEG" ∧ longEdge ≤ edge then .ok (raw, false) else encode
      else encode

def compressAll (raws : List (B × RefRole)) (step : Nat) (singleMaxBytes : Int) :
    Except E (List (B × Bool)) :=
  raws.mapM fun raw => compressSingleAtStep env raw.1 raw.2 step singleMaxBytes

def effectiveSingle (limits : PayloadLimits) : Int := min limits.singleMaxBytes limits.totalMaxBytes

def totalSize (compressed : List (B × Bool)) : Nat := (compressed.map fun data => env.size data.1).sum

/-- Every reference of an array is within the bound of one image. -/
def singleOk (raws : List (B × RefRole)) (compressed : List (B × Bool)) (single : Int) : Bool :=
  (compressed.zip raws).all fun pair => pair.2.2 ≠ .array || (env.size pair.1.1 : Int) ≤ single

/-- The loop of `select_ladder_step`, with the steps that are left below this one. -/
def selectFrom (raws : List (B × RefRole)) (limits : PayloadLimits) :
    (remaining step : Nat) → Except (Failure E) (Nat × List (B × Bool))
  | remaining, step =>
      match compressAll env raws step (effectiveSingle limits) with
      | .error e => .error (.error e)
      | .ok compressed =>
          if (totalSize env compressed : Int) ≤ limits.totalMaxBytes ∧
              singleOk env raws compressed (effectiveSingle limits) = true then
            .ok (step, compressed)
          else
            match remaining with
            | 0 => .error (.floor none)
            | remaining + 1 => selectFrom raws limits remaining (step + 1)

def selectLadderStep (raws : List (B × RefRole)) (limits : PayloadLimits) (startStep : Nat) :
    Except (Failure E) (Nat × List (B × Bool)) :=
  selectFrom env raws limits (ladderSteps - startStep) startStep

/-- The references in the order of the specs: what could not be read keeps its path, and what was
encoded anew has a temporary copy. -/
def mergeRefs : Nat → List (ReferenceSpec × Option B) → List (B × Bool) → List (CompressedRef B)
  | _, [], _ => []
  | i, (spec, none) :: specs, compressed =>
      ⟨.source spec.source, spec.label, spec.role, none⟩ :: mergeRefs (i + 1) specs compressed
  | i, (spec, some raw) :: specs, [] =>
      ⟨.source spec.source, spec.label, spec.role, some raw⟩ :: mergeRefs (i + 1) specs []
  | i, (spec, some _) :: specs, (data, encoded) :: compressed =>
      ⟨if encoded then .temporary i (env.stem spec.source) else .source spec.source,
        spec.label, spec.role, some data⟩ :: mergeRefs (i + 1) specs compressed

/-- The indexes of the temporary copies. -/
def temporaryIndexes (refs : List (CompressedRef B)) : List Nat :=
  refs.filterMap fun ref =>
    match ref.path with
    | .temporary index _ => some index
    | .source _ => none

/-- Entering `compressed_reference_payload`: the step, the references and whether a directory for
temporary copies is left; an error has removed it again. -/
def enterPayload (world : W) (specs : List ReferenceSpec) (limits : PayloadLimits) (startStep : Nat) :
    Except (Failure E) (Nat × List (CompressedRef B) × Bool) :=
  let read := specs.map fun spec => (spec, env.tryReadImage world spec.source)
  let raws := read.filterMap fun spec => spec.2.map fun raw => (raw, spec.1.role)
  match selectLadderStep env raws limits startStep with
  | .error failure => .error failure
  | .ok (landed, compressed) =>
      let refs := mergeRefs env 0 read compressed
      match (temporaryIndexes refs).findSome? (env.writeError world) with
      | some e => .error (.error e)
      | none => .ok (landed, refs, !(temporaryIndexes refs).isEmpty)

/-- What can be seen of a run: the hook was awaited, the provider was called, and the flag when an
error was handled. -/
inductive Event (B : Type) where
  | awaited (returned : Bool)
  | called (landed : Option Nat) (refs : List (CompressedRef B))
  | failed (isUnsafe : Bool)
  deriving DecidableEq, Repr

/-- `live` counts the directories for temporary copies. -/
structure Run (W B : Type) where
  world : W
  submitBoundaryCrossed : Bool
  live : Nat
  trace : List (Event B)

def Run.log (run : Run W B) (event : Event B) : Run W B := { run with trace := run.trace ++ [event] }

def isUnsafe (world : W) : Bool :=
  match env.providerResubmitIsUnsafe with
  | none => false
  | some flag => flag world

def call (run : Run W B) (landed : Option Nat) (refs : List (CompressedRef B)) :
    Run W B × Except E R :=
  let answer := env.buildAndCall run.world refs
  ({ run.log (.called landed refs) with world := answer.1 }, answer.2)

/-- `_call_once`. -/
def callOnce (run : Run W B) (landed : Option Nat) (refs : List (CompressedRef B)) :
    Run W B × Except E R :=
  if run.submitBoundaryCrossed then call env run landed refs
  else
    let crossed := { run with submitBoundaryCrossed := true }
    match env.beforeSubmit with
    | none => call env crossed landed refs
    | some hook =>
        match hook run.world with
        | (world, .error e) => ({ crossed.log (.awaited false) with world := world }, .error e)
        | (world, .ok ()) => call env { crossed.log (.awaited true) with world := world } landed refs

/-- The retry loop, with a bound on its iterations. -/
def attempts (specs : List ReferenceSpec) (limits : PayloadLimits) :
    Nat → Nat → Run W B → Option (Run W B × Except (Failure E) R)
  | 0, _, _ => none
  | fuel + 1, step, run =>
      let world := env.compressing run.world
      match enterPayload env world specs limits step with
      | .error failure => some ({ run with world := world }, .error failure)
      | .ok (landed, refs, temporary) =>
          let opened := if temporary then run.live + 1 else run.live
          let (later, result) := callOnce env { run with world := world, live := opened } (some landed) refs
          let closed := if temporary then later.live - 1 else later.live
          match result with
          | .ok result => some ({ later with live := closed }, .ok result)
          | .error e =>
              let flag := isUnsafe env later.world
              let handled := { later.log (.failed flag) with live := closed }
              if env.is413 e = false ∨ flag = true then some (handled, .error (.error e))
              else if landed < ladderSteps then attempts specs limits fuel (landed + 1) handled
              else some (handled, .error (.floor (some e)))

/-- `_run_with_reference_compression`. -/
def runWithReferenceCompression (specs : List ReferenceSpec) (limits : PayloadLimits) (world : W) :
    Option (Run W B × Except (Failure E) R) :=
  let start : Run W B := ⟨world, false, 0, []⟩
  if specs.isEmpty then
    match callOnce env start none [] with
    | (run, .ok result) => some (run, .ok result)
    | (run, .error e) => some (run, .error (.error e))
  else attempts env specs limits (ladderSteps + 1) 0 start

end Program

end ArcReel.Media
