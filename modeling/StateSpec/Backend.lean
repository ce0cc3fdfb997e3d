/-
  THE BACKEND INTERFACE — `bindings/cpp/backend.hpp`: descriptors, versioned records, queries and
  the errors of the interface.

  `Query` keeps the source's shape, a kind with one optional slot per argument of any kind; the
  factories (`keyPrefixQuery`, `indexEquals`, ...) fill exactly the slots of their kind.  An
  `IndexValue` of the source is a kind together with a JSON value, and its factories are the only
  code that builds one, always with the value of that kind; the model makes that pairing the type.

  A `Version` is a `std::uint64_t` that only ever grows by one per commit of a record, so it is a
  natural number here.
-/
import StateSpec.Json

namespace StateSpec

abbrev CollectionName := Bytes
abbrev Key := Bytes
abbrev Version := Nat

/-! ## Collection descriptors -/

inductive FieldType where
  | string | bool | int | int32 | int64 | long | double | decimal | json | timestamp | duration
  | uuid | named | list | set | map | optional | reference
deriving DecidableEq

structure FieldDescriptor where
  name : Bytes
  type : FieldType := .named
  typeName : Bytes := []
  required : Bool := false
deriving DecidableEq

structure IndexDescriptor where
  name : Bytes
  fields : List Bytes
  unique : Bool := false
deriving DecidableEq

structure CollectionDescriptor where
  name : CollectionName
  fields : List FieldDescriptor := []
  keyFields : List Bytes := []
  indexes : List IndexDescriptor := []
  schemaVersion : Nat := 1
deriving DecidableEq

/-! ## Errors -/

inductive ConflictKind where
  | versionConflict | predicateConflict | uniqueIndexConflict | schemaConflict | leaseConflict
  | queueClaimConflict | workflowClaimConflict
deriving DecidableEq

/-- What a call of the C++ binding can throw. -/
inductive Error where
  /-- `BackendError`. -/
  | backendError (message : Bytes)
  /-- `ConflictError`. -/
  | conflictError (kind : ConflictKind) (message : Bytes)
  /-- `std::out_of_range`, from `std::map::at`. -/
  | outOfRange
  /-- `std::bad_variant_access`, from `std::get`. -/
  | badVariantAccess
deriving DecidableEq

/-- The kind of a conflict, when the error is one. -/
def Error.conflictKind : Error → Option ConflictKind
  | .conflictError kind _ => some kind
  | _ => none

/-- What can go wrong in an in-memory backend, in any binding.  Each binding reports it as an error
    of its own. -/
inductive Fault where
  /-- The transaction has been committed or aborted. -/
  | closed
  /-- An observed version is no longer current. -/
  | versionConflict
  /-- A field of an index holds an array or an object. -/
  | nonScalar
  /-- A second record under one key of a unique index. -/
  | uniqueIndexConflict (collection : CollectionName) (index : Bytes)
deriving DecidableEq

/-- The kind of a conflict, when the fault is one; every binding agrees on these. -/
def Fault.conflictKind : Fault → Option ConflictKind
  | .versionConflict => some .versionConflict
  | .uniqueIndexConflict _ _ => some .uniqueIndexConflict
  | _ => none

/-- The faults of keeping an index: a field that is no scalar, or a unique index in the way. -/
def Fault.OfIndex (fault : Fault) : Prop :=
  fault = .nonScalar ∨ ∃ collection index, fault = .uniqueIndexConflict collection index

/-- The texts of the errors, as far as the bindings agree on them. -/
def versionConflictMessage : Bytes := ascii "in-memory OCC conflict"

def nonScalarMessage : Bytes :=
  ascii "in-memory index fields must resolve to scalar JSON values"

def uniqueIndexMessage (collection : CollectionName) (index : Bytes) : Bytes :=
  ascii "unique index conflict on collection '" ++ collection ++ ascii "' index '" ++ index ++
    ascii "'"

/-! ## Records and queries -/

structure VersionedRecord (δ : Type) where
  collection : CollectionName
  key : Key
  version : Version := 0
  document : Json δ

/-- An index value, as the factories of `IndexValue` build them. -/
inductive IndexValue (δ : Type) where
  | nullValue
  | stringValue (value : Bytes)
  | integerValue (value : Int)
  | decimalValue (value : δ)
  | booleanValue (value : Bool)
  | timestampValue (value : Bytes)

structure IndexBound (δ : Type) where
  values : List (IndexValue δ)
  inclusive : Bool := true

inductive Query.Kind where
  | all | keyPrefix | jsonEquals | indexEquals | indexPrefix | indexRange
deriving DecidableEq

structure Query (δ : Type) where
  kind : Query.Kind := .all
  keyPrefix : Option Bytes := none
  jsonPath : Option Bytes := none
  jsonValue : Option (Json δ) := none
  indexName : Option Bytes := none
  indexValues : List (IndexValue δ) := []
  lowerBound : Option (IndexBound δ) := none
  upperBound : Option (IndexBound δ) := none

namespace Query

variable {δ : Type}

def all : Query δ := {}

def keyPrefixQuery (keyPrefix : Bytes) : Query δ :=
  { kind := .keyPrefix, keyPrefix := some keyPrefix }

def jsonEquals (path : Bytes) (value : Json δ) : Query δ :=
  { kind := .jsonEquals, jsonPath := some path, jsonValue := some value }

def indexEquals (name : Bytes) (values : List (IndexValue δ)) : Query δ :=
  { kind := .indexEquals, indexName := some name, indexValues := values }

def indexPrefix (name : Bytes) (values : List (IndexValue δ)) : Query δ :=
  { kind := .indexPrefix, indexName := some name, indexValues := values }

def indexRange (name : Bytes) (lower upper : Option (IndexBound δ)) : Query δ :=
  { kind := .indexRange, indexName := some name, lowerBound := lower, upperBound := upper }

end Query

/-- A query of the Rust and Java bindings: one alternative for each kind. -/
inductive SealedQuery (δ : Type) where
  | all
  | keyPrefix (text : Bytes)
  | jsonEquals (path : Bytes) (value : Json δ)
  | indexEquals (indexName : Bytes) (values : List (IndexValue δ))
  | indexPrefix (indexName : Bytes) (prefixValues : List (IndexValue δ))
  | indexRange (indexName : Bytes) (lowerBound upperBound : Option (IndexBound δ))

/-- The query that the factory of the same name builds in C++ and Go. -/
def SealedQuery.toQuery {δ : Type} : SealedQuery δ → Query δ
  | .all => .all
  | .keyPrefix text => .keyPrefixQuery text
  | .jsonEquals path value => .jsonEquals path value
  | .indexEquals name values => .indexEquals name values
  | .indexPrefix name values => .indexPrefix name values
  | .indexRange name lower upper => .indexRange name lower upper

end StateSpec
