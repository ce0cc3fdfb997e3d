/-
  THE RUST, GO AND JAVA IN-MEMORY BACKENDS — `transaction.rs`, `transaction.go.tmpl` and
  `InMemoryTransaction.java`, each as a `Binding`: how it reports faults, how it reads a query, how
  it recognises an erased key.

  Rust and Java have the sealed type of queries, and key the entries of an index by the list of its
  parts.  Go has the open type of C++, and keys the entries by one string, in which each part
  follows its length (`encodeIndexKey`); it compares such strings, and their prefixes, bytewise.

  Text is well-formed UTF-8.  Java orders it by UTF-16 code units, which differs from the order of
  bytes in one thing: what UTF-16 needs a pair of surrogates for sorts before U+E000 to U+FFFF
  (`utf16Rank`).
-/
import StateSpec.Memory.ByKey

set_option linter.unusedSectionVars false

namespace StateSpec

open Memory

variable {δ : Type} [Decimal δ]

/-! ## Sealed queries -/

namespace SealedQuery

/-- `is_index_query`. -/
def isIndexQuery : SealedQuery δ → Bool
  | .indexEquals .. | .indexPrefix .. | .indexRange .. => true
  | _ => false

/-- `query_index_name`. -/
def queryIndexName : SealedQuery δ → Option Bytes
  | .indexEquals name .. | .indexPrefix name .. | .indexRange name .. => some name
  | _ => none

/-- `matches_index_key`, for the binding's order of index keys. -/
def matchesIndexKey (cmp : InMemoryIndexKey → InMemoryIndexKey → Ordering) (key : InMemoryIndexKey) :
    SealedQuery δ → Bool
  | .indexEquals _ values => indexKeyStartsWith key (extractQueryIndexKey values)
  | .indexPrefix _ prefixValues => indexKeyStartsWith key (extractQueryIndexKey prefixValues)
  | .indexRange _ lower upper => keyInRange cmp key lower upper
  | _ => false

end SealedQuery

/-- `strip_prefix` of `"record:<collection>:"`: what Rust and Java take for an erased key. -/
def erasedKeyByPrefix (collection : CollectionName) (versionKey : Bytes) : Option Key :=
  Bytes.stripPrefix (recordPrefix ++ (collection ++ [colon])) versionKey

theorem erasedKeyByPrefix_iff {c : CollectionName} {vk : Bytes} {k : Key} :
    erasedKeyByPrefix c vk = some k ↔ vk = recordVersionKey c k := by
  rw [erasedKeyByPrefix, Bytes.stripPrefix_iff, recordVersionKey]
  simp only [List.append_assoc, List.singleton_append]

/-! ## Rust -/

namespace Rust

/-- `BackendError`, as far as transactions return it. -/
inductive BackendError where
  | conflict (kind : ConflictKind) (message : Bytes)
  | invalidSchema (message : Bytes)
  | internal (message : Bytes)
deriving DecidableEq

/-- The kind of a conflict, when the error is one. -/
def BackendError.conflictKind : BackendError → Option ConflictKind
  | .conflict kind _ => some kind
  | _ => none

/-- What the Rust binding returns. -/
def raise : Fault → BackendError
  | .closed => .internal (ascii "expected open in-memory transaction")
  | .versionConflict => .conflict .versionConflict versionConflictMessage
  | .nonScalar => .invalidSchema nonScalarMessage
  | .uniqueIndexConflict collection index =>
    .conflict .uniqueIndexConflict (uniqueIndexMessage collection index)

/-- The conflict kind survives. -/
theorem conflictKind_raise (fault : Fault) : (raise fault).conflictKind = fault.conflictKind := by
  cases fault <;> rfl

/-- `matches_query`. -/
def matchesQuery (record : VersionedRecord δ) : SealedQuery δ → Bool
  | .all => true
  | .keyPrefix keyPrefix => startsWith record.key keyPrefix
  | .jsonEquals path value =>
    match findSegments record.document (path.splitOn 46) with
    | none => false
    | some found => found.same value
  | .indexEquals .. | .indexPrefix .. | .indexRange .. => true

/-- The Rust backend. -/
def binding : Binding δ (SealedQuery δ) InMemoryIndexKey Unit BackendError where
  raise := raise
  selector query :=
    { isIndex := query.isIndexQuery
      indexName := query.queryIndexName
      matchesKey := fun key => query.matchesIndexKey compare key
      matchesRecord := fun record => matchesQuery record query }
  excludeStaged := false
  erasedKey := erasedKeyByPrefix
  order _ := []
  erasedKey_sound := erasedKeyByPrefix_iff.mp

end Rust

/-! ## Go -/

namespace Go

/-- The errors transactions return. -/
inductive Error where
  | errUnsupported
  | errInvalidSchema
  | conflictError (kind : ConflictKind) (message : Bytes)
deriving DecidableEq

/-- What the Go binding returns. -/
def raise : Fault → Error
  | .closed => .errUnsupported
  | .versionConflict => .conflictError .versionConflict versionConflictMessage
  | .nonScalar => .errInvalidSchema
  | .uniqueIndexConflict collection index =>
    .conflictError .uniqueIndexConflict (uniqueIndexMessage collection index)

/-- `encodeIndexKey`: each part behind its length. -/
def encodeIndexKey (parts : InMemoryIndexKey) : Bytes :=
  parts.flatMap fun part => Bytes.decimal part.length ++ colon :: part

/-- Entries are keyed by encoded keys. -/
instance : EntryKey Bytes := ⟨encodeIndexKey⟩

/-- `indexKeyStartsWith`. -/
def indexKeyStartsWith (encodedKey : Bytes) (keyPrefix : InMemoryIndexKey) : Bool :=
  startsWith encodedKey (encodeIndexKey keyPrefix)

/-- `matchesIndexKey`. -/
def matchesIndexKey (encodedKey : Bytes) (query : Query δ) : Bool :=
  match query.kind with
  | .indexEquals => indexKeyStartsWith encodedKey (extractQueryIndexKey query.indexValues)
  | .indexPrefix => indexKeyStartsWith encodedKey (extractQueryIndexKey query.indexValues)
  | .indexRange => keyInRange compare encodedKey query.lowerBound query.upperBound
  | _ => false

/-- `json.Marshal` of a string, one byte at a time: it also escapes what HTML would misread. -/
def marshalByte (c : UInt8) : Bytes :=
  if c = 60 ∨ c = 62 ∨ c = 38 then
    ascii "\\u00" ++ [Json.hexDigit (c >>> 4), Json.hexDigit (c &&& 15)]
  else Json.escapeByte c

/-- `json.Marshal` of a string: U+2028 and U+2029 are escaped too. -/
def marshalBytes : Bytes → Bytes
  | 0xE2 :: 0x80 :: 0xA8 :: rest => ascii "\\u2028" ++ marshalBytes rest
  | 0xE2 :: 0x80 :: 0xA9 :: rest => ascii "\\u2029" ++ marshalBytes rest
  | c :: rest => marshalByte c ++ marshalBytes rest
  | [] => []

/-- `CanonicalString`. -/
def canonicalString (json : Json δ) : Bytes :=
  json.canonicalWith fun s => 34 :: marshalBytes s ++ [34]

/-- `recordMatchesQuery`. -/
def recordMatchesQuery (record : VersionedRecord δ) (query : Query δ) : Bool :=
  match query.kind with
  | .all => true
  | .keyPrefix =>
    match query.keyPrefix with
    | none => false
    | some keyPrefix => startsWith record.key keyPrefix
  | .jsonEquals =>
    match query.jsonPath, query.jsonValue with
    | some path, some jsonValue =>
      match findSegments record.document (path.splitOn 46) with
      | none => false
      | some value => canonicalString value == canonicalString jsonValue
    | _, _ => false
  | .indexEquals | .indexPrefix | .indexRange => true

/-- What Go takes for an erased key: what the version key parses to, in that collection. -/
def erasedKey (collection : CollectionName) (versionKey : Bytes) : Option Key :=
  match parseRecordVersionKey versionKey with
  | none => none
  | some (erasedCollection, key) => if erasedCollection = collection then some key else none

theorem erasedKey_sound {c : CollectionName} {vk : Bytes} {k : Key}
    (h : erasedKey c vk = some k) : vk = recordVersionKey c k := by
  rw [erasedKey] at h
  cases hparse : parseRecordVersionKey vk with
  | none =>
    rw [hparse] at h
    cases h
  | some place =>
    obtain ⟨c', k'⟩ := place
    simp only [hparse] at h
    by_cases hc : c' = c
    · rw [if_pos hc, Option.some_inj] at h
      rw [← hc, ← h, (parse_sound hparse).1]
    · rw [if_neg hc] at h
      cases h

/-- The Go backend; its commit visits the staged records in any order. -/
def binding : Binding δ (Query δ) Bytes (List Nat) Error where
  raise := raise
  selector query :=
    { isIndex := query.kind == .indexEquals || query.kind == .indexPrefix ||
        query.kind == .indexRange
      indexName := query.indexName
      matchesKey := fun encodedKey => matchesIndexKey encodedKey query
      matchesRecord := fun record => recordMatchesQuery record query }
  excludeStaged := true
  erasedKey := erasedKey
  order := id
  erasedKey_sound := erasedKey_sound

end Go

/-! ## Java -/

namespace Java

/-- The exceptions transactions throw. -/
inductive Exception where
  | backendException (message : Bytes)
  | conflictException (kind : ConflictKind) (message : Bytes)
deriving DecidableEq

/-- What the Java binding throws. -/
def raise : Fault → Exception
  | .closed => .backendException (ascii "expected open in-memory transaction")
  | .versionConflict => .conflictException .versionConflict versionConflictMessage
  | .nonScalar => .backendException nonScalarMessage
  | .uniqueIndexConflict collection index =>
    .conflictException .uniqueIndexConflict (uniqueIndexMessage collection index)

/-- The place of a byte of UTF-8 in the order of UTF-16: the lead bytes of U+E000 to U+FFFF come
    behind those of what lies beyond U+FFFF. -/
def utf16Rank (b : UInt8) : Nat := if b = 0xEE ∨ b = 0xEF then b.toNat + 16 else b.toNat

/-- `compareIndexKeys`. -/
def compareIndexKeys (left right : InMemoryIndexKey) : Ordering :=
  compare (left.map fun part => part.map utf16Rank) (right.map fun part => part.map utf16Rank)

/-- `path.split("\\.")`: empty segments at the end are dropped, if anything was split at all. -/
def splitPath (path : Bytes) : List Bytes :=
  let segments := path.splitOn 46
  if segments.length ≤ 1 then segments else (segments.reverse.dropWhile List.isEmpty).reverse

/-- `matches`. -/
def matchesQuery (record : VersionedRecord δ) : SealedQuery δ → Bool
  | .all => true
  | .keyPrefix keyPrefix => startsWith record.key keyPrefix
  | .jsonEquals path expected =>
    match findSegments record.document (splitPath path) with
    | none => false
    | some value => value.canonicalString == expected.canonicalString
  | .indexEquals .. | .indexPrefix .. | .indexRange .. => true

/-- The Java backend; its commit visits the staged records in any order. -/
def binding : Binding δ (SealedQuery δ) InMemoryIndexKey (List Nat) Exception where
  raise := raise
  selector query :=
    { isIndex := query.isIndexQuery
      indexName := query.queryIndexName
      matchesKey := fun key => query.matchesIndexKey compareIndexKeys key
      matchesRecord := fun record => matchesQuery record query }
  excludeStaged := false
  erasedKey := erasedKeyByPrefix
  order := id
  erasedKey_sound := erasedKeyByPrefix_iff.mp

example : splitPath (ascii "a.b..") = [ascii "a", ascii "b"] := by decide

end Java

end StateSpec
