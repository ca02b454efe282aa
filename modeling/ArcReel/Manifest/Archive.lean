import ArcReel.Manifest.Entry

/-! The portable form of a manifest in an archive. -/

namespace ArcReel.Manifest
open Lib

/-- `ArtifactManifestArchiveSnapshot`. -/
structure ArchiveSnapshot (p : Primitives) where
  entries : Dict (ArtifactKey p) ManifestEntry
  contentDigests : Dict (ArtifactKey p) Str

/-- The same mappings, in whatever order. -/
def ArchiveSnapshot.Same {p : Primitives} (snapshot other : ArchiveSnapshot p) : Prop :=
  (∀ key, snapshot.entries.get? key = other.entries.get? key) ∧
    ∀ key, snapshot.contentDigests.get? key = other.contentDigests.get? key

section Fields

/-- `set(fields) == keys`. -/
def hasKeys (fields : List (Str × Value)) (keys : List Str) : Bool :=
  (fields.all fun field => keys.contains field.1) && keys.all fun key => (fields.map Prod.fst).contains key

def field (fields : List (Str × Value)) (key : Str) : Value := (fields.lookup key).getD .null

def SameKeys (keys other : List Str) : Prop := (∀ key ∈ keys, key ∈ other) ∧ ∀ key ∈ other, key ∈ keys

instance (keys other : List Str) : Decidable (SameKeys keys other) :=
  inferInstanceAs (Decidable (_ ∧ _))

theorem hasKeys_iff {fields : List (Str × Value)} {keys : List Str} :
    hasKeys fields keys = true ↔ SameKeys (fields.map Prod.fst) keys := by
  simp only [hasKeys, SameKeys, Bool.and_eq_true, List.all_eq_true, List.contains_iff_mem,
    List.forall_mem_map]

/-- The fields of a sorted object with known keys. -/
theorem keys_eq_of_hasKeys {fields : List (Str × Value)} {keys : List Str}
    (ordered : fields.Pairwise fun a b => a.1 ≤ b.1) (distinct : (fields.map Prod.fst).Nodup)
    (known : keys.Pairwise (· ≤ ·)) (single : keys.Nodup) (same : hasKeys fields keys = true) :
    fields.map Prod.fst = keys := by
  obtain ⟨fewer, more⟩ := hasKeys_iff.mp same
  have perm : (fields.map Prod.fst).Perm keys :=
    (List.perm_ext_iff_of_nodup distinct single).mpr fun key => ⟨fewer key, more key⟩
  exact perm.eq_of_pairwise (fun _ _ _ _ => le_antisymm) (List.pairwise_map.mpr ordered) known

theorem sorted_eq_obj {value : Value} {fields : List (Str × Value)} (shape : value.sorted = .obj fields) :
    (fields.Pairwise fun a b => a.1 ≤ b.1) ∧ ∀ field ∈ fields, ∃ inner, field.2 = Value.sorted inner := by
  cases value with
  | obj given =>
    cases Value.obj.inj shape
    refine ⟨byKey_ordered _, ?_⟩
    intro field member
    rw [(byKey_perm _).mem_iff, sortedFields_eq_map] at member
    obtain ⟨source, -, rfl⟩ := List.mem_map.mp member
    exact ⟨source.2, rfl⟩
  | _ => cases shape

theorem distinct_obj {fields : List (Str × Value)} (distinct : (Value.obj fields).distinct = true) :
    (fields.map Prod.fst).Nodup ∧ ∀ field ∈ fields, field.2.distinct = true := by
  rw [Value.distinct, Bool.and_eq_true, decide_eq_true_eq, distinctFields_iff] at distinct
  exact distinct

end Fields

section Envelope

def envelopeKeys : List Str := [text "entries", text "hash_algorithm", text "schema_version"]

def archiveEntryKeys : List Str := [text "artifact_path", text "basis_digest", text "content_digest"]

/-- A manifest of one schema version. -/
def envelope (version : Int) (entries : List (Str × Value)) : Value :=
  .obj [(text "entries", .obj entries), (text "hash_algorithm", .str hashAlgorithm),
    (text "schema_version", .int version)]

def archivePayload (entries : List (Str × Value)) : Value := envelope 2 entries

def archiveEntry (entry : ManifestEntry) (contentDigest : Str) : Value :=
  .obj [(text "artifact_path", .str entry.artifactPath), (text "basis_digest", .str entry.basisDigest),
    (text "content_digest", .str contentDigest)]

/-- The entries of an envelope with the right schema, version and algorithm. -/
def envelopeEntries (version : Int) : Value → Option (List (Str × Value))
  | .obj fields =>
    if hasKeys fields envelopeKeys then
      match field fields (text "schema_version"), field fields (text "hash_algorithm"),
        field fields (text "entries") with
      | .int given, .str algorithm, .obj entries =>
        if given = version ∧ algorithm = hashAlgorithm then some entries else none
      | _, _, _ => none
    else none
  | _ => none

/-- Three fields whose keys are known. -/
theorem three_fields {fields : List (Str × Value)} {a b c : Str}
    (keys : fields.map Prod.fst = [a, b, c]) :
    ∃ x y z, fields = [(a, x), (b, y), (c, z)] := by
  match fields, keys with
  | [(_, x), (_, y), (_, z)], rfl => exact ⟨x, y, z, rfl⟩

theorem envelopeEntries_envelope (version : Int) (entries : List (Str × Value)) :
    envelopeEntries version (envelope version entries) = some entries := by
  have known : hasKeys [(text "entries", .obj entries), (text "hash_algorithm", .str hashAlgorithm),
      (text "schema_version", .int version)] envelopeKeys = true :=
    hasKeys_iff.mpr ⟨fun _ member => member, fun _ member => member⟩
  have first : field [(text "entries", .obj entries), (text "hash_algorithm", .str hashAlgorithm),
      (text "schema_version", .int version)] (text "schema_version") = .int version := rfl
  have second : field [(text "entries", .obj entries), (text "hash_algorithm", .str hashAlgorithm),
      (text "schema_version", .int version)] (text "hash_algorithm") = .str hashAlgorithm := rfl
  have third : field [(text "entries", .obj entries), (text "hash_algorithm", .str hashAlgorithm),
      (text "schema_version", .int version)] (text "entries") = .obj entries := rfl
  simp only [envelope, envelopeEntries, known, if_true, first, second, third, and_self]

theorem envelopeEntries_eq_some_iff {version : Int} {value : Value}
    (distinct : value.sorted.distinct = true) {entries : List (Str × Value)} :
    envelopeEntries version value.sorted = some entries ↔ value.sorted = envelope version entries := by
  constructor
  · intro found
    cases shape : value.sorted with
    | obj fields =>
      rw [shape] at found distinct
      rw [envelopeEntries] at found
      split at found
      · next known =>
        obtain ⟨x, y, z, rfl⟩ := three_fields (keys_eq_of_hasKeys (sorted_eq_obj shape).1
          (distinct_obj distinct).1 (by decide) (by decide) known)
        have first : field [(text "entries", x), (text "hash_algorithm", y),
          (text "schema_version", z)] (text "schema_version") = z := rfl
        have second : field [(text "entries", x), (text "hash_algorithm", y),
          (text "schema_version", z)] (text "hash_algorithm") = y := rfl
        have third : field [(text "entries", x), (text "hash_algorithm", y),
          (text "schema_version", z)] (text "entries") = x := rfl
        rw [first, second, third] at found
        split at found
        · split at found
          · next fine =>
            rw [fine.1, fine.2, Option.some.inj found]
            rfl
          · cases found
        · cases found
      · cases found
    | _ => rw [shape] at found; cases found
  · intro shape
    rw [shape]
    exact envelopeEntries_envelope version entries

/-- An envelope of ordered entries is sorted already. -/
theorem envelope_sorted {version : Int} {entries : List (Str × Value)}
    (ordered : entries.Pairwise fun a b => a.1 ≤ b.1)
    (values : ∀ entry ∈ entries, entry.2.sorted = entry.2) :
    (envelope version entries).sorted = envelope version entries := by
  refine sorted_obj (List.pairwise_map.mp (?_ : envelopeKeys.Pairwise (· ≤ ·))) ?_
  · decide
  · intro field member
    simp only [List.mem_cons, List.not_mem_nil, or_false] at member
    rcases member with rfl | rfl | rfl
    · exact sorted_obj ordered values
    · rfl
    · rfl

theorem envelope_writable {version : Int} {entries : List (Str × Value)}
    (small : (Value.int version).writable = true)
    (values : ∀ entry ∈ entries, entry.1.all isScalar = true ∧ entry.2.writable = true) :
    (envelope version entries).writable = true := by
  have whole : (Value.obj entries).writable = true := by
    rw [Value.writable, writableFields_iff]
    exact values
  rw [envelope, Value.writable, writableFields, writableFields, writableFields, writableFields,
    whole, small]
  decide

theorem envelope_distinct {version : Int} {entries : List (Str × Value)}
    (apart : (entries.map Prod.fst).Nodup) (values : ∀ entry ∈ entries, entry.2.distinct = true) :
    (envelope version entries).distinct = true := by
  have whole : (Value.obj entries).distinct = true := by
    rw [Value.distinct, Bool.and_eq_true, decide_eq_true_eq, distinctFields_iff]
    exact ⟨apart, values⟩
  have keys : envelopeKeys.Nodup := by decide
  rw [envelope, Value.distinct, distinctFields, distinctFields, distinctFields, distinctFields,
    whole, Bool.and_eq_true, decide_eq_true_eq]
  exact ⟨keys, rfl⟩

end Envelope

section Codec

variable {p : Primitives}

/-- A key with its entry and its content digest. -/
abbrev ArchiveClaim (p : Primitives) := ArtifactKey p × ManifestEntry × Str

/-- What an archive accepts of a claim. -/
structure ArchiveClaim.Fine (claim : ArchiveClaim p) : Prop where
  encodable : claim.1.Encodable
  canonical : claim.2.1.Canonical p
  content : isContentDigest claim.2.2 = true

def rawClaim (claim : ArchiveClaim p) : Str × Value :=
  (claim.1.wire, archiveEntry claim.2.1 claim.2.2)

def snapshotOf (claims : List (ArchiveClaim p)) : ArchiveSnapshot p where
  entries := .ofEntries (claims.map fun claim => (claim.1, claim.2.1))
  contentDigests := .ofEntries (claims.map fun claim => (claim.1, claim.2.2))

def encodeContentDigest (claim : ArtifactKey p × Str) : Except PyError (Str × Str) :=
  if isContentDigest claim.2 then claim.1.encode.map fun key => (key, claim.2) else .error .valueError

def encodeArtifactManifestPayload (snapshot : ArchiveSnapshot p) : Except PyError Value := do
  let encoded ← encodeTargetEntries snapshot.entries.entries
  let digests ← snapshot.contentDigests.entries.mapM encodeContentDigest
  if SameKeys (digests.map Prod.fst) (encoded.map Prod.fst) then
    return archivePayload ((byKey encoded).map fun entry =>
      (entry.1, archiveEntry entry.2 ((digests.lookup entry.1).getD [])))
  else throw .valueError

/-- One turn of the loop over the raw entries. -/
def decodeArchiveEntry (raw : Str × Value) : Except PyError (ArchiveClaim p) :=
  match ArtifactKey.decode p raw.1 with
  | .error .valueError => .error .manifestError
  | .error e => .error e
  | .ok key =>
    match raw.2 with
    | .obj fields =>
      if hasKeys fields archiveEntryKeys then
        match normalizeArtifactPath p (field fields (text "artifact_path")),
          field fields (text "basis_digest"), field fields (text "content_digest") with
        -- A path that is normalized is the path itself.
        | .ok path, .str basisDigest, .str contentDigest =>
          if isDigest basisDigest ∧ isContentDigest contentDigest then
            .ok (key, ⟨path, basisDigest⟩, contentDigest)
          else .error .manifestError
        | _, _, _ => .error .manifestError
      else .error .manifestError
    | _ => .error .manifestError

/-- `json.dumps` and `json.loads` give a value that can be written back with its keys sorted. -/
def decodeArtifactManifestPayload (p : Primitives) (payload : Value) :
    Except PyError (ArchiveSnapshot p) :=
  if payload.writable && payload.sorted.distinct then
    match envelopeEntries 2 payload.sorted with
    | none => .error .manifestError
    | some raw => do
      let claims ← raw.mapM decodeArchiveEntry
      if uniquePaths p (claims.map fun claim => claim.2.1) then return snapshotOf claims
      else throw .manifestError
  else .error .manifestError

theorem encodeContentDigest_eq_ok_iff (claim : ArtifactKey p × Str) (encoded : Str × Str) :
    encodeContentDigest claim = .ok encoded ↔
      (claim.1.Encodable ∧ isContentDigest claim.2 = true) ∧ encoded = (claim.1.wire, claim.2) := by
  rw [encodeContentDigest]
  by_cases fine : isContentDigest claim.2 = true
  · cases key : claim.1.encode with
    | error e =>
      have refused := (ArtifactKey.encode_eq_error_iff.mp key).1
      simp [fine, Except.map, refused]
    | ok key =>
      obtain ⟨encodable, rfl⟩ := ArtifactKey.encode_eq_ok_iff.mp key
      simp [fine, Except.map, encodable, eq_comm]
  · simp [fine]

/-- A raw entry decodes to the claim that it writes. -/
theorem decodeArchiveEntry_eq_ok_iff {raw : Str × Value} {inner : Value}
    (sorted : raw.2 = inner.sorted) (distinct : raw.2.distinct = true) {claim : ArchiveClaim p} :
    decodeArchiveEntry raw = .ok claim ↔ claim.Fine ∧ raw = rawClaim claim := by
  constructor
  · intro decoded
    rw [decodeArchiveEntry] at decoded
    split at decoded
    · cases decoded
    · cases decoded
    · next key found =>
      obtain ⟨encodable, wire⟩ := ArtifactKey.encode_eq_ok_iff.mp (ArtifactKey.decode_eq_ok_iff.mp found)
      split at decoded
      · next fields shape =>
        split at decoded
        · next known =>
          rw [shape] at distinct sorted
          obtain ⟨x, y, z, rfl⟩ := three_fields (keys_eq_of_hasKeys (sorted_eq_obj sorted.symm).1
            (distinct_obj distinct).1 (by decide) (by decide) known)
          split at decoded
          · next path basis content normalized isBasis isContent =>
            split at decoded
            · next fine =>
              obtain ⟨isPath, canonical⟩ := (normalizeArtifactPath_eq_ok_iff p).mp normalized
              cases Except.ok.inj decoded
              refine ⟨⟨encodable, ⟨canonical, fine.1⟩, fine.2⟩, ?_⟩
              have first : x = .str path := isPath
              have second : y = .str basis := isBasis
              have third : z = .str content := isContent
              rw [rawClaim, ← wire, archiveEntry, ← first, ← second, ← third, ← shape]
            · cases decoded
          · cases decoded
        · cases decoded
      · cases decoded
  · rintro ⟨fine, rfl⟩
    obtain ⟨encodable, canonical, content⟩ := fine
    have key := ArtifactKey.decode_encode (ArtifactKey.encode_eq_ok_iff.mpr ⟨encodable, rfl⟩)
    have known : hasKeys [(text "artifact_path", .str claim.2.1.artifactPath),
        (text "basis_digest", .str claim.2.1.basisDigest), (text "content_digest", .str claim.2.2)]
        archiveEntryKeys = true := by
      rw [hasKeys_iff]
      exact ⟨fun _ member => member, fun _ member => member⟩
    have path : field [(text "artifact_path", .str claim.2.1.artifactPath),
        (text "basis_digest", .str claim.2.1.basisDigest), (text "content_digest", .str claim.2.2)]
        (text "artifact_path") = .str claim.2.1.artifactPath := rfl
    have basis : field [(text "artifact_path", .str claim.2.1.artifactPath),
        (text "basis_digest", .str claim.2.1.basisDigest), (text "content_digest", .str claim.2.2)]
        (text "basis_digest") = .str claim.2.1.basisDigest := rfl
    have digest : field [(text "artifact_path", .str claim.2.1.artifactPath),
        (text "basis_digest", .str claim.2.1.basisDigest), (text "content_digest", .str claim.2.2)]
        (text "content_digest") = .str claim.2.2 := rfl
    simp only [decodeArchiveEntry, rawClaim, key, archiveEntry, known, if_true, path, basis, digest,
      normalizeArtifactPath, canonical.1, canonical.2, content, and_self]

theorem decodeArchiveEntry_error_iff {raw : Str × Value} {e : PyError} :
    ((decodeArchiveEntry raw : Except PyError (ArchiveClaim p)) = .error e ∧ e ≠ .manifestError) ↔
      e = .typeError ∧ ArtifactKey.HashesVariant p raw.1 := by
  constructor
  · rintro ⟨failed, other⟩
    rw [decodeArchiveEntry] at failed
    split at failed
    · exact absurd (Except.error.inj failed).symm other
    · next e' notValue raised =>
      cases Except.error.inj failed
      refine ArtifactKey.decode_error_iff.mp ⟨raised, ?_⟩
      rintro rfl
      exact notValue rfl
    · split at failed
      · split at failed
        · split at failed
          · split at failed
            · cases failed
            · exact absurd (Except.error.inj failed).symm other
          · exact absurd (Except.error.inj failed).symm other
        · exact absurd (Except.error.inj failed).symm other
      · exact absurd (Except.error.inj failed).symm other
  · rintro ⟨rfl, hashes⟩
    have raised := (ArtifactKey.decode_error_iff.mpr ⟨rfl, hashes⟩).1
    refine ⟨?_, fun same => (nomatch same)⟩
    rw [decodeArchiveEntry, raised]

/-- The envelope holds the claims, which it can be written and read with. -/
structure Envelope (p : Primitives) (payload : Value) (raw : List (Str × Value)) : Prop where
  writable : payload.writable = true
  distinct : payload.sorted.distinct = true
  shape : payload.sorted = archivePayload raw

namespace Envelope

variable {payload : Value} {raw : List (Str × Value)}

theorem iff : (payload.writable && payload.sorted.distinct) = true ∧
    envelopeEntries 2 payload.sorted = some raw ↔ Envelope p payload raw := by
  rw [Bool.and_eq_true]
  constructor
  · rintro ⟨⟨writable, distinct⟩, found⟩
    exact ⟨writable, distinct, (envelopeEntries_eq_some_iff distinct).mp found⟩
  · rintro ⟨writable, distinct, shape⟩
    exact ⟨⟨writable, distinct⟩, (envelopeEntries_eq_some_iff distinct).mpr shape⟩

theorem raw_sorted (envelope : Envelope p payload raw) :
    ∃ inner, Value.sorted inner = .obj raw := by
  obtain ⟨inner, whole⟩ := (sorted_eq_obj envelope.shape).2 _ List.mem_cons_self
  exact ⟨inner, whole.symm⟩

theorem raw_distinct (envelope : Envelope p payload raw) : (Value.obj raw).distinct = true := by
  have whole := envelope.distinct
  rw [envelope.shape] at whole
  exact (distinct_obj whole).2 _ List.mem_cons_self

theorem entry_decodes (envelope : Envelope p payload raw) {entry : Str × Value} (member : entry ∈ raw)
    (claim : ArchiveClaim p) :
    decodeArchiveEntry entry = .ok claim ↔ claim.Fine ∧ entry = rawClaim claim := by
  obtain ⟨inner, whole⟩ := envelope.raw_sorted
  obtain ⟨source, sorted⟩ := (sorted_eq_obj whole).2 entry member
  exact decodeArchiveEntry_eq_ok_iff sorted ((distinct_obj envelope.raw_distinct).2 entry member)

/-- The raw entries decode to the claims that they write. -/
theorem decodes (envelope : Envelope p payload raw) {claims : List (ArchiveClaim p)} :
    raw.mapM decodeArchiveEntry = .ok claims ↔ (∀ claim ∈ claims, claim.Fine) ∧
      raw = claims.map rawClaim := by
  have entries : ∀ entry ∈ raw, ∀ claim : ArchiveClaim p,
      decodeArchiveEntry entry = .ok claim ↔ claim.Fine ∧ entry = rawClaim claim :=
    fun _ member => envelope.entry_decodes member
  rw [mapM_eq_ok]
  constructor
  · intro matched
    clear envelope
    induction matched with
    | nil => exact ⟨fun _ member => (nomatch member), rfl⟩
    | cons first rest ih =>
      obtain ⟨here, later⟩ := List.forall_mem_cons.mp entries
      obtain ⟨fine, same⟩ := (here _).mp first
      obtain ⟨fines, sames⟩ := ih later
      exact ⟨List.forall_mem_cons.mpr ⟨fine, fines⟩, by rw [List.map_cons, ← same, ← sames]⟩
  · rintro ⟨fine, rfl⟩
    rw [List.forall₂_map_left_iff, List.forall₂_same]
    intro claim member
    exact (entries _ (List.mem_map_of_mem member) claim).mpr ⟨fine claim member, rfl⟩

end Envelope

/-- What an envelope decodes to. -/
theorem decode_eq_ok_iff {payload : Value} {snapshot : ArchiveSnapshot p} :
    decodeArtifactManifestPayload p payload = .ok snapshot ↔
      ∃ claims : List (ArchiveClaim p), Envelope p payload (claims.map rawClaim) ∧
        (∀ claim ∈ claims, claim.Fine) ∧ uniquePaths p (claims.map fun claim => claim.2.1) = true ∧
          snapshot = snapshotOf claims := by
  rw [decodeArtifactManifestPayload]
  constructor
  · intro decoded
    split at decoded
    · next fine =>
      split at decoded
      · cases decoded
      · next raw found =>
        have envelope : Envelope p payload raw := Envelope.iff.mp ⟨fine, found⟩
        obtain ⟨claims, mapped, passed⟩ := bind_eq_ok.mp decoded
        obtain ⟨fines, rfl⟩ := envelope.decodes.mp mapped
        split at passed
        · next unique => exact ⟨claims, envelope, fines, unique, (Except.ok.inj passed).symm⟩
        · cases passed
    · cases decoded
  · rintro ⟨claims, envelope, fines, unique, rfl⟩
    obtain ⟨fine, found⟩ := Envelope.iff.mpr envelope
    rw [if_pos fine, found]
    refine bind_eq_ok.mpr ⟨claims, envelope.decodes.mpr ⟨fines, rfl⟩, ?_⟩
    rw [if_pos unique]
    rfl

/-- The first raw entry that is no claim has a key whose variant has no hash. -/
def HashesKey (p : Primitives) (payload : Value) : Prop :=
  ∃ front key raw back, Envelope p payload (front ++ (key, raw) :: back) ∧
    (∀ entry ∈ front, ∃ claim : ArchiveClaim p, claim.Fine ∧ entry = rawClaim claim) ∧
      ArtifactKey.HashesVariant p key

theorem decode_error_iff {payload : Value} {e : PyError} :
    (decodeArtifactManifestPayload p payload = .error e ∧ e ≠ .manifestError) ↔
      e = .typeError ∧ HashesKey p payload := by
  constructor
  · rintro ⟨failed, other⟩
    rw [decodeArtifactManifestPayload] at failed
    split at failed
    · next fine =>
      split at failed
      · exact absurd (Except.error.inj failed).symm other
      · next raw found =>
        have envelope : Envelope p payload raw := Envelope.iff.mp ⟨fine, found⟩
        cases mapped : raw.mapM (decodeArchiveEntry (p := p)) with
        | ok claims =>
          rw [mapped] at failed
          change (if _ then _ else _) = _ at failed
          split at failed
          · cases failed
          · exact absurd (Except.error.inj failed).symm other
        | error e' =>
          rw [mapped] at failed
          cases Except.error.inj failed
          obtain ⟨front, ⟨key, value⟩, back, rfl, fines, raised⟩ := mapM_eq_error.mp mapped
          obtain ⟨rfl, hashes⟩ := decodeArchiveEntry_error_iff.mp ⟨raised, other⟩
          refine ⟨rfl, front, key, value, back, envelope, ?_, hashes⟩
          intro entry member
          exact (exists_congr (envelope.entry_decodes (List.mem_append_left _ member))).mp (fines entry member)
    · exact absurd (Except.error.inj failed).symm other
  · rintro ⟨rfl, front, key, raw, back, envelope, fines, hashes⟩
    refine ⟨?_, fun same => (nomatch same)⟩
    obtain ⟨fine, found⟩ := Envelope.iff.mpr envelope
    have mapped : (front ++ (key, raw) :: back).mapM (decodeArchiveEntry (p := p)) =
        .error .typeError := by
      refine mapM_eq_error.mpr ⟨front, (key, raw), back, rfl, ?_,
        (decodeArchiveEntry_error_iff.mpr ⟨rfl, hashes⟩).1⟩
      intro entry member
      exact (exists_congr (envelope.entry_decodes (List.mem_append_left _ member))).mpr
        (fines entry member)
    rw [decodeArtifactManifestPayload, if_pos fine, found]
    change (front ++ (key, raw) :: back).mapM (decodeArchiveEntry (p := p)) >>= _ = _
    rw [mapped]
    rfl

end Codec

end ArcReel.Manifest
