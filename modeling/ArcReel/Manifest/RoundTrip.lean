import ArcReel.Manifest.Archive

/-! Encoding and decoding keys and archives give back what they were given, except where a variant
has no hash. -/

namespace ArcReel.Manifest
open Lib

variable {p : Primitives}

section Written

theorem entryValue_sorted (entry : ManifestEntry) (digest : Str) :
    (archiveEntry entry digest).sorted = archiveEntry entry digest := by
  refine sorted_obj (List.pairwise_map.mp (?_ : archiveEntryKeys.Pairwise (· ≤ ·))) ?_
  · decide
  · intro field member
    simp only [List.mem_cons, List.not_mem_nil, or_false] at member
    rcases member with rfl | rfl | rfl <;> rfl

theorem payload_sorted {claims : List (ArchiveClaim p)}
    (ordered : (claims.map rawClaim).Pairwise fun a b => a.1 ≤ b.1) :
    (archivePayload (claims.map rawClaim)).sorted = archivePayload (claims.map rawClaim) := by
  refine envelope_sorted ordered ?_
  intro entry listed
  obtain ⟨claim, -, rfl⟩ := List.mem_map.mp listed
  exact entryValue_sorted claim.2.1 claim.2.2

theorem payload_writable {claims : List (ArchiveClaim p)} (fine : ∀ claim ∈ claims, claim.Fine) :
    (archivePayload (claims.map rawClaim)).writable = true := by
  refine envelope_writable (by decide +kernel) ?_
  intro entry member
  obtain ⟨claim, listed, rfl⟩ := List.mem_map.mp member
  obtain ⟨encodable, ⟨path, basis⟩, content⟩ := fine claim listed
  refine ⟨ArtifactKey.wire_scalar encodable, ?_⟩
  rw [rawClaim, archiveEntry, Value.writable, writableFields_iff]
  simp only [List.forall_mem_cons, Value.writable, scalar_of_canonicalPath p path,
    scalar_of_isDigest basis, scalar_of_isContentDigest content]
  decide

theorem payload_distinct {claims : List (ArchiveClaim p)}
    (apart : (claims.map fun claim => claim.1.wire).Nodup) :
    (archivePayload (claims.map rawClaim)).distinct = true := by
  refine envelope_distinct (by rw [List.map_map]; exact apart) ?_
  intro entry member
  obtain ⟨claim, -, rfl⟩ := List.mem_map.mp member
  rfl

end Written

section Snapshots

theorem nodup_keys {claims : List (ArchiveClaim p)} {raw : Value}
    (envelope : Envelope p raw (claims.map rawClaim)) : (claims.map Prod.fst).Nodup := by
  have apart := (distinct_obj envelope.raw_distinct).1
  rw [List.map_map] at apart
  refine List.Nodup.of_map ArtifactKey.wire ?_
  rw [List.map_map]
  exact apart

theorem entries_snapshotOf {claims : List (ArchiveClaim p)} (distinct : (claims.map Prod.fst).Nodup) :
    (snapshotOf claims).entries.entries = claims.map fun claim => (claim.1, claim.2.1) := by
  refine Dict.entries_ofEntries ?_
  rw [List.map_map]
  exact distinct

theorem contentDigests_snapshotOf {claims : List (ArchiveClaim p)}
    (distinct : (claims.map Prod.fst).Nodup) :
    (snapshotOf claims).contentDigests.entries = claims.map fun claim => (claim.1, claim.2.2) := by
  refine Dict.entries_ofEntries ?_
  rw [List.map_map]
  exact distinct

/-- What is stored under a key is stored under its encoding. -/
theorem lookup_wire {ν : Type} {entries : List (ArtifactKey p × ν)} {key : ArtifactKey p}
    (encodable : key.Encodable) (encodables : ∀ entry ∈ entries, entry.1.Encodable) :
    (entries.map fun entry => (entry.1.wire, entry.2)).lookup key.wire = entries.lookup key := by
  induction entries with
  | nil => rfl
  | cons entry entries ih =>
    obtain ⟨here, later⟩ := List.forall_mem_cons.mp encodables
    rw [List.map_cons, List.lookup_cons, List.lookup_cons, ih later]
    by_cases same : key = entry.1
    · simp [same]
    · have apart : key.wire ≠ entry.1.wire :=
        fun wires => same (ArtifactKey.wire_injective encodable here wires)
      rw [beq_false_of_ne apart, beq_false_of_ne same]

/-- What an archive accepts of a snapshot. -/
theorem encode_payload_eq_ok_iff {snapshot : ArchiveSnapshot p} {payload : Value} :
    encodeArtifactManifestPayload snapshot = .ok payload ↔
      (∀ claim ∈ snapshot.entries.entries, claim.1.Encodable ∧ claim.2.Canonical p) ∧
        (∀ claim ∈ snapshot.contentDigests.entries, claim.1.Encodable ∧ isContentDigest claim.2 = true) ∧
        SameKeys ((snapshot.contentDigests.entries.map fun claim => (claim.1.wire, claim.2)).map Prod.fst)
          ((snapshot.entries.entries.map wireClaim).map Prod.fst) ∧
        payload = archivePayload ((byKey (snapshot.entries.entries.map wireClaim)).map fun entry =>
          (entry.1, archiveEntry entry.2 (((snapshot.contentDigests.entries.map fun claim =>
            (claim.1.wire, claim.2)).lookup entry.1).getD []))) := by
  rw [encodeArtifactManifestPayload, bind_eq_ok]
  constructor
  · rintro ⟨encoded, entries, rest⟩
    obtain ⟨fine, rfl⟩ := (encodeTargetEntries_eq_ok_iff snapshot.entries.distinct).mp entries
    obtain ⟨digests, mapped, passed⟩ := bind_eq_ok.mp rest
    obtain ⟨contents, rfl⟩ := (mapM_eq_ok_map encodeContentDigest_eq_ok_iff).mp mapped
    split at passed
    · next same => exact ⟨fine, contents, same, (Except.ok.inj passed).symm⟩
    · cases passed
  · rintro ⟨fine, contents, same, rfl⟩
    refine ⟨_, (encodeTargetEntries_eq_ok_iff snapshot.entries.distinct).mpr ⟨fine, rfl⟩, ?_⟩
    refine bind_eq_ok.mpr ⟨_, (mapM_eq_ok_map encodeContentDigest_eq_ok_iff).mpr ⟨contents, rfl⟩, ?_⟩
    rw [if_pos same]
    rfl

/-- A decoded envelope is what its snapshot encodes to. -/
theorem encode_decoded {payload : Value} {snapshot : ArchiveSnapshot p}
    (decoded : decodeArtifactManifestPayload p payload = .ok snapshot) :
    ∃ written, encodeArtifactManifestPayload snapshot = .ok written ∧
      written.sorted = payload.sorted := by
  obtain ⟨claims, envelope, fine, -, rfl⟩ := decode_eq_ok_iff.mp decoded
  have distinct := nodup_keys envelope
  obtain ⟨inner, whole⟩ := envelope.raw_sorted
  have ordered := (sorted_eq_obj whole).1
  refine ⟨archivePayload (claims.map rawClaim), ?_, (payload_sorted ordered).trans envelope.shape.symm⟩
  rw [encode_payload_eq_ok_iff, entries_snapshotOf distinct, contentDigests_snapshotOf distinct]
  refine ⟨?_, ?_, ?_, ?_⟩
  · intro claim member
    obtain ⟨source, listed, rfl⟩ := List.mem_map.mp member
    exact ⟨(fine source listed).encodable, (fine source listed).canonical⟩
  · intro claim member
    obtain ⟨source, listed, rfl⟩ := List.mem_map.mp member
    exact ⟨(fine source listed).encodable, (fine source listed).content⟩
  · rw [List.map_map, List.map_map, List.map_map, List.map_map]
    exact ⟨fun _ member => member, fun _ member => member⟩
  · have entries : byKey ((claims.map fun claim => (claim.1, claim.2.1)).map wireClaim) =
        claims.map fun claim => (claim.1.wire, claim.2.1) := by
      have front : claims.Pairwise fun a b => a.1.wire ≤ b.1.wire := by
        have moved := List.pairwise_map.mp ordered
        exact moved
      rw [List.map_map]
      exact byKey_of_ordered (List.pairwise_map.mpr front)
    rw [entries, List.map_map]
    refine congrArg archivePayload (List.map_congr_left fun claim member => ?_)
    have digest : (claims.map fun claim => (claim.1, claim.2.2)).lookup claim.1 = some claim.2.2 := by
      refine (Dict.lookup_eq_some_iff ?_ _ _).mpr ?_
      · rw [List.map_map]
        exact distinct
      · exact List.mem_map.mpr ⟨claim, member, rfl⟩
    have encodables : ∀ entry ∈ claims.map fun claim => (claim.1, claim.2.2), entry.1.Encodable := by
      intro entry listed
      obtain ⟨source, inside, rfl⟩ := List.mem_map.mp listed
      exact (fine source inside).encodable
    rw [rawClaim, Function.comp_apply, lookup_wire (fine claim member).encodable encodables, digest]
    rfl

/-- The claims of a snapshot in the order of their encodings. -/
def orderedClaims (snapshot : ArchiveSnapshot p) : List (ArchiveClaim p) :=
  (snapshot.entries.entries.insertionSort fun a b => a.1.wire ≤ b.1.wire).map fun claim =>
    (claim.1, claim.2, (snapshot.contentDigests.get? claim.1).getD [])

theorem orderedClaims_perm (snapshot : ArchiveSnapshot p) :
    ((orderedClaims snapshot).map fun claim => (claim.1, claim.2.1)).Perm snapshot.entries.entries := by
  rw [orderedClaims, List.map_map]
  have same : ∀ claims : List (ArtifactKey p × ManifestEntry), claims.map
      ((fun claim => (claim.1, claim.2.1)) ∘ fun claim =>
        (claim.1, claim.2, (snapshot.contentDigests.get? claim.1).getD [])) = claims := by
    intro claims
    exact List.map_id claims
  rw [same]
  exact List.perm_insertionSort _ _

theorem mem_orderedClaims {snapshot : ArchiveSnapshot p} {claim : ArchiveClaim p} :
    claim ∈ orderedClaims snapshot ↔ (claim.1, claim.2.1) ∈ snapshot.entries.entries ∧
      claim.2.2 = (snapshot.contentDigests.get? claim.1).getD [] := by
  rw [orderedClaims, List.mem_map]
  constructor
  · rintro ⟨source, listed, rfl⟩
    exact ⟨(List.perm_insertionSort _ _).mem_iff.mp listed, rfl⟩
  · rintro ⟨listed, digest⟩
    refine ⟨(claim.1, claim.2.1), (List.perm_insertionSort _ _).mem_iff.mpr listed, ?_⟩
    rw [← digest]

/-- The mapping that an accepted snapshot writes. -/
theorem written_eq {snapshot : ArchiveSnapshot p}
    (encodable : ∀ claim ∈ snapshot.entries.entries, claim.1.Encodable)
    (encodable' : ∀ claim ∈ snapshot.contentDigests.entries, claim.1.Encodable) :
    ((byKey (snapshot.entries.entries.map wireClaim)).map fun entry =>
      (entry.1, archiveEntry entry.2 (((snapshot.contentDigests.entries.map fun claim =>
        (claim.1.wire, claim.2)).lookup entry.1).getD []))) =
      (orderedClaims snapshot).map rawClaim := by
  have order : (snapshot.entries.entries.insertionSort fun a b => a.1.wire ≤ b.1.wire).map wireClaim =
      byKey (snapshot.entries.entries.map wireClaim) :=
    List.map_insertionSort _ _ wireClaim _ fun _ _ _ _ => Iff.rfl
  rw [← order, orderedClaims, List.map_map, List.map_map]
  refine List.map_congr_left fun claim member => ?_
  have listed := (List.perm_insertionSort _ _).mem_iff.mp member
  have digest := lookup_wire (encodable claim listed) encodable'
  simp only [Function.comp_apply, wireClaim, rawClaim, digest, Dict.get?]

/-- A snapshot that encodes decodes to the same snapshot. -/
theorem decode_encoded {snapshot : ArchiveSnapshot p} {payload : Value}
    (unique : uniquePaths p snapshot.entries.values = true)
    (encoded : encodeArtifactManifestPayload snapshot = .ok payload) :
    ∃ returned, decodeArtifactManifestPayload p payload = .ok returned ∧ returned.Same snapshot := by
  obtain ⟨fine, contents, same, rfl⟩ := encode_payload_eq_ok_iff.mp encoded
  have encodable := fun claim member => (fine claim member).1
  have written := written_eq encodable fun claim member => (contents claim member).1
  have perm := orderedClaims_perm snapshot
  have digestOf : ∀ claim ∈ orderedClaims snapshot,
      snapshot.contentDigests.get? claim.1 = some claim.2.2 := by
    intro claim member
    obtain ⟨listed, value⟩ := mem_orderedClaims.mp member
    have known := same.2 claim.1.wire
      (List.mem_map.mpr ⟨_, List.mem_map.mpr ⟨_, listed, rfl⟩, rfl⟩)
    rw [List.map_map] at known
    obtain ⟨entry, stored, wires⟩ := List.mem_map.mp known
    have key := ArtifactKey.wire_injective (contents entry stored).1 (fine _ listed).1 wires
    have found : snapshot.contentDigests.get? claim.1 = some entry.2 :=
      (Dict.get?_eq_some_iff _ _ _).mpr (key ▸ stored)
    rw [found] at value
    rw [found, value]
    rfl
  have fines : ∀ claim ∈ orderedClaims snapshot, claim.Fine := by
    intro claim member
    have listed := fine _ (mem_orderedClaims.mp member).1
    have stored := (Dict.get?_eq_some_iff _ _ _).mp (digestOf claim member)
    exact ⟨listed.1, listed.2, (contents _ stored).2⟩
  have ordered : ((orderedClaims snapshot).map rawClaim).Pairwise fun a b => a.1 ≤ b.1 := by
    rw [← written]
    exact List.pairwise_map.mpr (byKey_ordered _)
  have apart : ((orderedClaims snapshot).map fun claim => claim.1.wire).Nodup := by
    have wires := (perm.map wireClaim).map Prod.fst
    have distinct := wires.nodup_iff.mpr (nodup_wireClaim encodable snapshot.entries.distinct)
    rw [List.map_map, List.map_map] at distinct
    exact distinct
  have envelope : Envelope p (archivePayload ((orderedClaims snapshot).map rawClaim))
      ((orderedClaims snapshot).map rawClaim) := by
    have sorted := payload_sorted ordered
    exact ⟨payload_writable fines, by rw [sorted]; exact payload_distinct apart, sorted⟩
  have once : uniquePaths p ((orderedClaims snapshot).map fun claim => claim.2.1) = true := by
    have values := uniquePaths_perm p (perm.map Prod.snd)
    rw [List.map_map] at values
    exact values.trans unique
  have distinct := nodup_keys envelope
  rw [written]
  refine ⟨_, decode_eq_ok_iff.mpr ⟨_, envelope, fines, once, rfl⟩, ?_, ?_⟩
  · exact Dict.get?_eq_of_perm ((entries_snapshotOf distinct).symm ▸ perm)
  · intro key
    refine Option.ext fun digest => ?_
    rw [Dict.get?_eq_some_iff, contentDigests_snapshotOf distinct, List.mem_map]
    constructor
    · rintro ⟨claim, member, whole⟩
      cases whole
      exact digestOf claim member
    · intro found
      have stored := (Dict.get?_eq_some_iff _ _ _).mp found
      have known := same.1 key.wire (List.mem_map.mpr ⟨_, List.mem_map.mpr ⟨_, stored, rfl⟩, rfl⟩)
      rw [List.map_map] at known
      obtain ⟨⟨other, entry⟩, listed, wires⟩ := List.mem_map.mp known
      cases ArtifactKey.wire_injective (fine _ listed).1 (contents _ stored).1 wires
      refine ⟨(key, entry, digest), mem_orderedClaims.mpr ⟨listed, ?_⟩, rfl⟩
      rw [found]
      rfl

end Snapshots

section Codec

/-- Decoding an archive gives a snapshot of that envelope or raises an `ArtifactManifestError`. -/
def Archived (p : Primitives) (payload : Value) : Prop :=
  (∃ snapshot written, decodeArtifactManifestPayload p payload = .ok snapshot ∧
      encodeArtifactManifestPayload snapshot = .ok written ∧ written.sorted = payload.sorted) ∨
    decodeArtifactManifestPayload p payload = .error .manifestError

theorem archived_iff (payload : Value) : Archived p payload ↔ ¬HashesKey p payload := by
  constructor
  · intro archived hashes
    have raised := (decode_error_iff.mpr ⟨rfl, hashes⟩).1
    rcases archived with ⟨snapshot, written, decoded, -⟩ | failed
    · rw [raised] at decoded
      cases decoded
    · rw [raised] at failed
      cases failed
  · intro hashable
    cases result : decodeArtifactManifestPayload p payload with
    | ok snapshot =>
      obtain ⟨written, encoded, same⟩ := encode_decoded result
      exact Or.inl ⟨snapshot, written, result, encoded, same⟩
    | error e =>
      right
      rw [result]
      by_contra other
      refine hashable (decode_error_iff.mp ⟨result, ?_⟩).2
      rintro rfl
      exact other rfl

end Codec

section Sample

mutual

def number : Value → Nat
  | .null => Nat.pair 0 0
  | .bool value => Nat.pair 1 value.toNat
  | .int value => Nat.pair 2 (Encodable.encode value)
  | .float value => Nat.pair 3 (Encodable.encode value)
  | .str value => Nat.pair 4 (Encodable.encode value)
  | .arr items => Nat.pair 5 (itemsNumber items)
  | .obj fields => Nat.pair 6 (fieldsNumber fields)

def itemsNumber : List Value → Nat
  | [] => 0
  | value :: items => Nat.pair (number value) (itemsNumber items) + 1

def fieldsNumber : List (Str × Value) → Nat
  | [] => 0
  | (key, value) :: fields =>
    Nat.pair (Encodable.encode key) (Nat.pair (number value) (fieldsNumber fields)) + 1

end

mutual

theorem number_injective : ∀ value other : Value, number value = number other → value = other
  | value, other, same => by
    cases value <;> cases other <;> simp only [number, Nat.pair_eq_pair] at same <;>
      first | (exact absurd same.1 (by decide)) | skip
    case null.null => rfl
    case bool.bool value other => cases value <;> cases other <;> simp_all
    case int.int => rw [Encodable.encode_injective same.2]
    case float.float => rw [Encodable.encode_injective same.2]
    case str.str => rw [Encodable.encode_injective same.2]
    case arr.arr => rw [itemsNumber_injective _ _ same.2]
    case obj.obj => rw [fieldsNumber_injective _ _ same.2]

theorem itemsNumber_injective : ∀ items other : List Value,
    itemsNumber items = itemsNumber other → items = other
  | [], [], _ => rfl
  | [], _ :: _, same => by simp [itemsNumber] at same
  | _ :: _, [], same => by simp [itemsNumber] at same
  | value :: items, value' :: other, same => by
    simp only [itemsNumber, Nat.add_right_cancel_iff, Nat.pair_eq_pair] at same
    rw [number_injective value value' same.1, itemsNumber_injective items other same.2]

theorem fieldsNumber_injective : ∀ fields other : List (Str × Value),
    fieldsNumber fields = fieldsNumber other → fields = other
  | [], [], _ => rfl
  | [], _ :: _, same => by simp [fieldsNumber] at same
  | _ :: _, [], same => by simp [fieldsNumber] at same
  | (key, value) :: fields, (key', value') :: other, same => by
    simp only [fieldsNumber, Nat.add_right_cancel_iff, Nat.pair_eq_pair] at same
    rw [Encodable.encode_injective same.1, number_injective value value' same.2.1,
      fieldsNumber_injective fields other same.2.2]

end

/-- One value has its real text, every other one a number in unary. -/
def standIn (known : Value) (real : Str) (value : Value) : Str :=
  if number value = number known then real else 0x21 :: List.replicate (number value) 0x41

theorem standIn_injective (known : Value) {real : Str} (apart : real.head? ≠ some 0x21) :
    Function.Injective (standIn known real) := by
  intro value other same
  unfold standIn at same
  split at same
  · next here =>
    split at same
    · next there => exact number_injective _ _ (here.trans there.symm)
    · rw [same] at apart
      exact absurd rfl apart
  · split at same
    · rw [← same] at apart
      exact absurd rfl apart
    · have lengths := congrArg List.length (List.cons.inj same).2
      rw [List.length_replicate, List.length_replicate] at lengths
      exact number_injective _ _ lengths

theorem standIn_scalar (known : Value) {real : Str} (scalar : real.all isScalar = true)
    (value : Value) : (standIn known real value).all isScalar = true := by
  unfold standIn
  split
  · exact scalar
  · rw [List.all_cons, List.all_replicate]
    split <;> rfl

def sampleValue : Value := .arr [.str (text "episode-subtitle"), .int 1, .str (text "E1"), .arr []]

def sampleToken : Str := text "WyJlcGlzb2RlLXN1YnRpdGxlIiwxLCJFMSIsW11d"

theorem sampleToken_injective : Function.Injective (standIn sampleValue sampleToken) :=
  standIn_injective sampleValue (by decide)

/-- ASCII texts are in NFC, and the sample value has its token. -/
noncomputable def sample : Primitives where
  nfc := id
  casefold := id
  token := standIn sampleValue sampleToken
  untoken := Function.partialInv (standIn sampleValue sampleToken)
  nfc_nfc _ := rfl
  strip_nfc _ := rfl
  token_scalar value _ := standIn_scalar sampleValue (by decide) value
  untoken_token value _ := Function.partialInv_left sampleToken_injective value

private def sampleKey : Str := text "artifact-key-v1:WyJlcGlzb2RlLXN1YnRpdGxlIiwxLCJFMSIsW11d"

private theorem sampleKey_hashes : ArtifactKey.HashesVariant sample sampleKey := by
  refine ⟨by decide, .episodeSubtitle, [.int 1, .str (text "E1"), .arr []], ?_, rfl, 1,
    text "E1", .arr [], rfl, by decide, by decide, Or.inl ⟨[], rfl⟩⟩
  have token : sampleKey.drop ArtifactKey.keyPrefix.length =
      standIn sampleValue sampleToken sampleValue := by
    rw [standIn, if_pos rfl]
    decide
  rw [token]
  exact Function.partialInv_left sampleToken_injective sampleValue

private noncomputable def surrogateKey : ArtifactKey sample where
  kind := .episodeVideo
  components := [.number 1, .text [0xD800]]
  canonical := rfl

end Sample

end ArcReel.Manifest
