import ArcReel.Manifest.Archive

/-! The manifest file: what is written of the entries and what is read back. -/

namespace ArcReel.Manifest
open Lib

/-- The bytes of a JSON document. Reading gives what was written. -/
structure DocumentCodec where
  Bytes : Type
  same : DecidableEq Bytes
  document : Value → Bytes
  parse : Bytes → Option Value
  parse_document : ∀ value, value.writable = true → parse (document value) = some value

instance (codec : DocumentCodec) : DecidableEq codec.Bytes := codec.same

/-- Entries by the encodings of their keys. -/
abbrev Entries := Dict Str ManifestEntry

namespace Entries

/-- `==` of two dictionaries. -/
def same (entries other : Entries) : Bool := decide (entries.entries.Perm other.entries)

theorem same_iff {entries other : Entries} :
    entries.same other = true ↔ ∀ key, entries.get? key = other.get? key := by
  rw [same, decide_eq_true_eq]
  exact ⟨Dict.get?_eq_of_perm, Dict.perm_of_get?_eq⟩

end Entries

section Document

variable (p : Primitives) (codec : DocumentCodec)

def manifestEntryKeys : List Str := [text "artifact_path", text "basis_digest"]

def rawEntry (entry : Str × ManifestEntry) : Str × Value :=
  (entry.1, .obj [(text "artifact_path", .str entry.2.artifactPath),
    (text "basis_digest", .str entry.2.basisDigest)])

/-- The document of a manifest, `sort_keys` included. -/
def manifestDocument (entries : Entries) : Value :=
  (envelope 1 ((byKey entries.entries).map rawEntry)).sorted

/-- `_serialize_manifest`. -/
def serializeManifest (entries : Entries) : Except PyError codec.Bytes :=
  if uniquePaths p entries.values then
    if (manifestDocument entries).writable then .ok (codec.document (manifestDocument entries))
    else .error .valueError
  else .error .manifestError

/-- One turn of the loop of `_parse_manifest`. -/
def parseManifestEntry (raw : Str × Value) : Except PyError (Str × ManifestEntry) :=
  match ArtifactKey.decode p raw.1 with
  | .error .valueError => .error .manifestError
  | .error e => .error e
  | .ok _ =>
    match raw.2 with
    | .obj fields =>
      if hasKeys fields manifestEntryKeys then
        match normalizeArtifactPath p (field fields (text "artifact_path")),
          field fields (text "basis_digest") with
        | .ok path, .str basisDigest =>
          if isDigest basisDigest then .ok (raw.1, ⟨path, basisDigest⟩) else .error .manifestError
        | _, _ => .error .manifestError
      else .error .manifestError
    | _ => .error .manifestError

/-- `_parse_manifest`. -/
def parseManifest (raw : codec.Bytes) : Except PyError Entries :=
  match codec.parse raw with
  | none => .error .manifestError
  | some payload =>
    match if payload.distinct then envelopeEntries 1 payload else none with
    | none => .error .manifestError
    | some rawEntries => do
      let entries ← rawEntries.mapM (parseManifestEntry p)
      if uniquePaths p (Dict.ofEntries entries).values then return .ofEntries entries
      else throw .manifestError

/-- Every entry is canonical and under the encoding of a key. -/
structure Entries.Sound (entries : Entries) : Prop where
  keys : ∀ entry ∈ entries.entries, ∃ key : ArtifactKey p, key.Encodable ∧ entry.1 = key.wire
  canonical : ∀ entry ∈ entries.entries, entry.2.Canonical p

/-- What a manifest may hold. -/
structure Entries.Valid (entries : Entries) : Prop extends Entries.Sound p entries where
  unique : uniquePaths p entries.values = true

variable {p codec} {entries other : Entries}

theorem rawEntries_ordered (entries : Entries) :
    ((byKey entries.entries).map rawEntry).Pairwise fun a b => a.1 ≤ b.1 :=
  List.pairwise_map.mpr (byKey_ordered entries.entries)

theorem mem_byKey {entry : Str × ManifestEntry} :
    entry ∈ byKey entries.entries ↔ entry ∈ entries.entries :=
  (byKey_perm entries.entries).mem_iff

theorem nodup_byKey (entries : Entries) : ((byKey entries.entries).map Prod.fst).Nodup :=
  ((byKey_perm entries.entries).map Prod.fst).nodup_iff.mpr entries.distinct

theorem manifestDocument_eq (entries : Entries) :
    manifestDocument entries = envelope 1 ((byKey entries.entries).map rawEntry) := by
  refine envelope_sorted (rawEntries_ordered entries) ?_
  intro raw member
  obtain ⟨entry, -, rfl⟩ := List.mem_map.mp member
  refine sorted_obj (List.pairwise_map.mp (?_ : manifestEntryKeys.Pairwise (· ≤ ·))) ?_
  · decide
  · intro field listed
    simp only [List.mem_cons, List.not_mem_nil, or_false] at listed
    rcases listed with rfl | rfl <;> rfl

theorem Entries.Sound.writable (sound : entries.Sound p) :
    (manifestDocument entries).writable = true := by
  rw [manifestDocument_eq]
  refine envelope_writable (by decide +kernel) ?_
  intro raw member
  obtain ⟨entry, listed, rfl⟩ := List.mem_map.mp member
  have stored := mem_byKey.mp listed
  obtain ⟨key, encodable, wire⟩ := sound.keys entry stored
  obtain ⟨path, basis⟩ := sound.canonical entry stored
  refine ⟨?_, ?_⟩
  · rw [rawEntry, wire]
    exact ArtifactKey.wire_scalar encodable
  · rw [rawEntry, Value.writable, writableFields_iff]
    simp only [List.forall_mem_cons, Value.writable, scalar_of_canonicalPath p path,
      scalar_of_isDigest basis]
    decide

theorem manifestDocument_distinct (entries : Entries) : (manifestDocument entries).distinct = true := by
  rw [manifestDocument_eq]
  refine envelope_distinct ?_ ?_
  · rw [List.map_map]
    exact nodup_byKey entries
  · intro raw member
    obtain ⟨entry, -, rfl⟩ := List.mem_map.mp member
    rfl

theorem parseManifestEntry_rawEntry {key : ArtifactKey p} (encodable : key.Encodable)
    {entry : ManifestEntry} (canonical : entry.Canonical p) :
    parseManifestEntry p (rawEntry (key.wire, entry)) = .ok (key.wire, entry) := by
  have decoded := ArtifactKey.decode_encode (ArtifactKey.encode_eq_ok_iff.mpr ⟨encodable, rfl⟩)
  have known : hasKeys [(text "artifact_path", .str entry.artifactPath),
      (text "basis_digest", .str entry.basisDigest)] manifestEntryKeys = true :=
    hasKeys_iff.mpr ⟨fun _ member => member, fun _ member => member⟩
  have path : field [(text "artifact_path", .str entry.artifactPath),
      (text "basis_digest", .str entry.basisDigest)] (text "artifact_path") =
        .str entry.artifactPath := rfl
  have basis : field [(text "artifact_path", .str entry.artifactPath),
      (text "basis_digest", .str entry.basisDigest)] (text "basis_digest") =
        .str entry.basisDigest := rfl
  simp only [parseManifestEntry, rawEntry, decoded, known, if_true, path, basis,
    normalizeArtifactPath, canonical.1, canonical.2]

/-- The entries of a dictionary in the order of a written manifest. -/
def Entries.ordered (entries : Entries) : Entries := ⟨byKey entries.entries, nodup_byKey entries⟩

theorem Entries.get?_ordered (entries : Entries) (key : Str) :
    entries.ordered.get? key = entries.get? key :=
  Dict.get?_eq_of_perm (byKey_perm entries.entries) key

theorem uniquePaths_values {entries other : Entries} (same : entries.entries.Perm other.entries) :
    uniquePaths p entries.values = uniquePaths p other.values :=
  uniquePaths_perm p (same.map Prod.snd)

/-- What is read back from a written manifest. -/
theorem parse_manifestDocument (valid : entries.Valid p) :
    parseManifest p codec (codec.document (manifestDocument entries)) = .ok entries.ordered := by
  have mapped : ((byKey entries.entries).map rawEntry).mapM (parseManifestEntry p) =
      .ok (byKey entries.entries) := by
    rw [mapM_eq_ok, List.forall₂_map_left_iff, List.forall₂_same]
    rintro ⟨key, entry⟩ member
    have stored := mem_byKey.mp member
    obtain ⟨source, encodable, rfl⟩ := valid.keys _ stored
    exact parseManifestEntry_rawEntry encodable (valid.canonical _ stored)
  have built : Dict.ofEntries (byKey entries.entries) = entries.ordered := by
    have listed := Dict.entries_ofEntries (nodup_byKey entries)
    cases whole : Dict.ofEntries (byKey entries.entries) with
    | mk inner distinct =>
      rw [whole] at listed
      cases listed
      rfl
  have unique : uniquePaths p entries.ordered.values = true :=
    (uniquePaths_values (byKey_perm entries.entries)).trans valid.unique
  have distinct := manifestDocument_distinct entries
  rw [manifestDocument_eq] at distinct
  rw [parseManifest, codec.parse_document _ valid.writable]
  simp only [manifestDocument_eq, distinct, if_true, envelopeEntries_envelope]
  rw [mapped]
  change (if _ then _ else _) = _
  rw [built, if_pos unique]
  rfl

/-- Sound entries are written unless two of them own one path. -/
theorem serializeManifest_sound (sound : entries.Sound p) :
    serializeManifest p codec entries = if uniquePaths p entries.values then
      .ok (codec.document (manifestDocument entries)) else .error .manifestError := by
  rw [serializeManifest, if_pos sound.writable]

theorem Entries.Sound.congr (sound : entries.Sound p)
    (same : ∀ key, entries.get? key = other.get? key) : other.Sound p := by
  have perm := Dict.perm_of_get?_eq same
  exact ⟨fun entry member => sound.keys entry (perm.mem_iff.mpr member),
    fun entry member => sound.canonical entry (perm.mem_iff.mpr member)⟩

/-- Validity depends on what is stored under each key. -/
theorem Entries.Valid.congr (valid : entries.Valid p)
    (same : ∀ key, entries.get? key = other.get? key) : other.Valid p := by
  have perm := Dict.perm_of_get?_eq same
  exact ⟨valid.toSound.congr same, (uniquePaths_values perm).symm.trans valid.unique⟩

/-- The document depends on what is stored under each key. -/
theorem manifestDocument_congr (same : ∀ key, entries.get? key = other.get? key) :
    manifestDocument entries = manifestDocument other := by
  have perm := Dict.perm_of_get?_eq same
  have order : byKey entries.entries = byKey other.entries :=
    eq_of_ordered_perm ((byKey_perm _).trans (perm.trans (byKey_perm _).symm)) (nodup_byKey entries)
      (byKey_ordered _) (byKey_ordered _)
  rw [manifestDocument, manifestDocument, order]

/-- Two valid manifests with the same bytes hold the same entries. -/
theorem document_injective (valid : entries.Valid p) (valid' : other.Valid p)
    (bytes : codec.document (manifestDocument entries) = codec.document (manifestDocument other))
    (key : Str) : entries.get? key = other.get? key := by
  have read : parseManifest p codec (codec.document (manifestDocument entries)) =
      .ok entries.ordered := parse_manifestDocument valid
  rw [bytes, parse_manifestDocument valid', Except.ok.injEq] at read
  rw [← entries.get?_ordered, ← other.get?_ordered, read]

end Document

end ArcReel.Manifest
