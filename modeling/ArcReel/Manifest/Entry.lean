import ArcReel.Manifest.Key

/-! The entries of a manifest: canonical paths and digests, and who owns a path. -/

namespace ArcReel.Manifest
open Lib

structure ManifestEntry where
  artifactPath : Str
  basisDigest : Str
  deriving DecidableEq

section Paths

variable (p : Primitives)

def reservedArtifactPaths : List Str := [text ".arcreel_artifacts.json", text ".artifact_manifest.lock"]

def pathParts (path : Str) : List Str := path.splitOnP (· == 0x2F)

/-- `part.rstrip(" .")`. -/
def rstripDots (part : Str) : Str := part.rdropWhile fun c => c == 0x20 || c == 0x2E

def plainPart (part : Str) : Bool :=
  part != [] && part != text "." && part != text ".." && rstripDots part == part &&
    !part.contains 0x3A

/-- What `normalize_artifact_path` lets through, unchanged. An absolute path has an empty part, a
Windows drive a colon or an empty part. -/
def canonicalPath (path : Str) : Bool :=
  path != [] && !path.contains 0 && !path.contains 0x5C && path.all isScalar &&
    (pathParts path).all plainPart && !reservedArtifactPaths.contains path &&
    !((pathParts path).length == 1 &&
      (reservedArtifactPaths.map p.casefold).contains (p.casefold (rstripDots path)))

def normalizeArtifactPath : Value → Except PyError Str
  | .str path => if canonicalPath p path then .ok path else .error .valueError
  | _ => .error .valueError

theorem normalizeArtifactPath_eq_ok_iff {value : Value} {path : Str} :
    normalizeArtifactPath p value = .ok path ↔ value = .str path ∧ canonicalPath p path = true := by
  cases value with
  | str given =>
    rw [normalizeArtifactPath]
    by_cases fine : canonicalPath p given = true
    · rw [if_pos fine, Except.ok.injEq, Value.str.injEq]
      exact ⟨fun same => ⟨same, same ▸ fine⟩, And.left⟩
    · rw [if_neg fine, Value.str.injEq]
      exact ⟨fun raised => (nomatch raised), fun both => absurd (both.1 ▸ both.2) fine⟩
  | _ => simp [normalizeArtifactPath]

theorem scalar_of_canonicalPath {path : Str} (canonical : canonicalPath p path = true) :
    path.all isScalar = true := by
  simp only [canonicalPath, Bool.and_eq_true] at canonical
  exact canonical.1.1.1.2

end Paths

section Digests

def isHexDigit (point : Nat) : Bool :=
  (0x30 ≤ point && point ≤ 0x39) || (0x61 ≤ point && point ≤ 0x66)

def hashAlgorithm : Str := text "sha256-v1"

/-- `_CONTENT_DIGEST_RE`. -/
def isContentDigest (digest : Str) : Bool := digest.length == 64 && digest.all isHexDigit

/-- `_DIGEST_RE`. -/
def isDigest (digest : Str) : Bool :=
  (text "sha256-v1:").isPrefixOf digest && isContentDigest (digest.drop 10)

theorem scalar_of_isHexDigit {point : Nat} (hex : isHexDigit point = true) :
    isScalar point = true := by
  simp only [isHexDigit, isScalar, Bool.or_eq_true, Bool.and_eq_true, decide_eq_true_eq] at hex ⊢
  omega

theorem scalar_of_isContentDigest {digest : Str} (fine : isContentDigest digest = true) :
    digest.all isScalar = true := by
  rw [isContentDigest, Bool.and_eq_true, List.all_eq_true] at fine
  exact List.all_eq_true.mpr fun point member => scalar_of_isHexDigit (fine.2 point member)

theorem scalar_of_isDigest {digest : Str} (fine : isDigest digest = true) :
    digest.all isScalar = true := by
  rw [isDigest, Bool.and_eq_true, List.isPrefixOf_iff_prefix] at fine
  obtain ⟨rest, rfl⟩ := fine.1
  have tail : isContentDigest rest = true := fine.2
  rw [List.all_append, scalar_of_isContentDigest tail]
  decide

end Digests

section Ownership

variable (p : Primitives)

/-- The name of a path on a file system that folds cases and normal forms. -/
def pathIdentity (path : Str) : Str := p.casefold (p.nfc path)

/-- `_assert_unique_artifact_paths` passes; the entries have different keys. -/
def uniquePaths (entries : List ManifestEntry) : Bool :=
  decide (entries.map fun entry => pathIdentity p entry.artifactPath).Nodup

theorem uniquePaths_perm {entries other : List ManifestEntry} (same : entries.Perm other) :
    uniquePaths p entries = uniquePaths p other :=
  decide_eq_decide.mpr (same.map _).nodup_iff

end Ownership

section Target

variable {p : Primitives}

/-- The path and the digest of a claim are in their canonical form. -/
def ManifestEntry.Canonical (p : Primitives) (entry : ManifestEntry) : Prop :=
  canonicalPath p entry.artifactPath = true ∧ isDigest entry.basisDigest = true

instance (entry : ManifestEntry) : Decidable (entry.Canonical p) :=
  inferInstanceAs (Decidable (_ ∧ _))

/-- One turn of the loop of `_encode_target_entries`. -/
def encodeTargetEntry (claim : ArtifactKey p × ManifestEntry) : Except PyError (Str × ManifestEntry) :=
  match normalizeArtifactPath p (.str claim.2.artifactPath) with
  | .error e => .error e
  | .ok normalized =>
    if normalized ≠ claim.2.artifactPath ∨ isDigest claim.2.basisDigest = false then .error .valueError
    else claim.1.encode.map fun key => (key, claim.2)

/-- `_encode_target_entries`. -/
def encodeTargetEntries (claims : List (ArtifactKey p × ManifestEntry)) :
    Except PyError (List (Str × ManifestEntry)) := do
  let encoded ← claims.mapM encodeTargetEntry
  if (encoded.map Prod.fst).Nodup then return encoded else throw .valueError

/-- A claim under the encoding of its key. -/
def wireClaim (claim : ArtifactKey p × ManifestEntry) : Str × ManifestEntry := (claim.1.wire, claim.2)

theorem encodeTargetEntry_eq_ok_iff (claim : ArtifactKey p × ManifestEntry)
    (encoded : Str × ManifestEntry) :
    encodeTargetEntry claim = .ok encoded ↔
      (claim.1.Encodable ∧ claim.2.Canonical p) ∧ encoded = wireClaim claim := by
  rw [encodeTargetEntry, normalizeArtifactPath, ManifestEntry.Canonical]
  by_cases canonical : canonicalPath p claim.2.artifactPath = true
  · cases digest : isDigest claim.2.basisDigest with
    | false => simp [canonical]
    | true =>
      cases key : claim.1.encode with
      | error e =>
        have refused := (ArtifactKey.encode_eq_error_iff.mp key).1
        simp [canonical, Except.map, refused]
      | ok key =>
        obtain ⟨encodable, rfl⟩ := ArtifactKey.encode_eq_ok_iff.mp key
        simp [canonical, Except.map, encodable, wireClaim, eq_comm]
  · simp [canonical]

/-- Different keys have different encodings. -/
theorem nodup_wireClaim {claims : List (ArtifactKey p × ManifestEntry)}
    (encodable : ∀ claim ∈ claims, claim.1.Encodable) (distinct : (claims.map Prod.fst).Nodup) :
    ((claims.map wireClaim).map Prod.fst).Nodup := by
  rw [List.map_map]
  have keys : claims.map (Prod.fst ∘ wireClaim) = (claims.map Prod.fst).map ArtifactKey.wire := by
    rw [List.map_map]
    rfl
  rw [keys]
  refine distinct.map_on ?_
  intro key member other member' same
  obtain ⟨claim, listed, rfl⟩ := List.mem_map.mp member
  obtain ⟨claim', listed', rfl⟩ := List.mem_map.mp member'
  exact ArtifactKey.wire_injective (encodable claim listed) (encodable claim' listed') same

/-- The encoded claims, one for one. -/
theorem encodeTargetEntries_eq_ok_iff {claims : List (ArtifactKey p × ManifestEntry)}
    (distinct : (claims.map Prod.fst).Nodup) {encoded : List (Str × ManifestEntry)} :
    encodeTargetEntries claims = .ok encoded ↔
      (∀ claim ∈ claims, claim.1.Encodable ∧ claim.2.Canonical p) ∧
        encoded = claims.map wireClaim := by
  rw [encodeTargetEntries, bind_eq_ok]
  constructor
  · rintro ⟨listed, mapped, passed⟩
    split at passed
    · cases Except.ok.inj passed
      exact (mapM_eq_ok_map encodeTargetEntry_eq_ok_iff).mp mapped
    · cases passed
  · rintro ⟨fine, rfl⟩
    refine ⟨_, (mapM_eq_ok_map encodeTargetEntry_eq_ok_iff).mpr ⟨fine, rfl⟩, ?_⟩
    rw [if_pos (nodup_wireClaim (fun claim member => (fine claim member).1) distinct)]
    rfl

end Target

end ArcReel.Manifest
