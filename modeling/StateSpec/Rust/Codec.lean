/-
  THE RUST CODEC — `bindings/rust/runtime/codec_core.rs`: how the Rust stores put values into their
  documents and read them back, and what the stores return when they fail.

  A Rust document has nanoseconds where a C++ document has milliseconds or seconds, and `null` where
  a C++ document has no member.  Reading never fails: what is absent or of another type is an empty
  text, 0, `false` or no value.

  Numbers go through an `i64`, and what is negative there is read as 0: `storedU64_eq` and
  `storedTime_eq` say what is read back.
-/
import Mathlib.Algebra.Group.Int.Defs
import Mathlib.Algebra.Group.Nat.Defs
import StateSpec.Runtime.Codec
import StateSpec.Runtime.Session
import StateSpec.Bindings.Backend

namespace StateSpec.Rust

open StateSpec.Runtime

variable {δ : Type}

/-! ## Errors -/

/-- `BackendError`, with the alternative that only the stores return. -/
inductive StoreError where
  | notFound (message : Bytes)
  | backendError (error : BackendError)
deriving DecidableEq

/-- The kind of a conflict, when the error is one. -/
def StoreError.conflictKind : StoreError → Option ConflictKind
  | .notFound _ => none
  | .backendError error => error.conflictKind

/-- `BackendError::Conflict`. -/
def StoreError.conflict (kind : ConflictKind) (message : Bytes) : StoreError :=
  .backendError (.conflict kind message)

/-- The transactions of the Rust stores. -/
abbrev TxProgram (δ ρ : Type) := Program RuntimeCollection Key (Json δ) StoreError ρ

/-! ## `codec_core.rs` -/

/-- `std::time::Duration`, in nanoseconds. -/
abbrev Duration := Nat

/-- `now + duration`. -/
def plus (now : Timestamp) (duration : Duration) : Timestamp := now + (duration : Int)

/-- `definition_key`. -/
def definitionKey (parts : List Bytes) : Key := [colon].intercalate parts

/-- `object`. -/
def object (values : List (Bytes × Json δ)) : Json δ := .ofMembers values

/-- `object_values(value).get(key).unwrap_or(&Json::Null)`. -/
def member (value : Json δ) (key : Bytes) : Json δ := (value.find key).getD .null

def optionalString (value : Option Bytes) : Json δ := (value.map .string).getD .null

def optionalStringFromJson : Json δ → Option Bytes
  | .string value => some value
  | _ => none

def stringFromJson : Json δ → Bytes
  | .string value => value
  | _ => []

def i64FromJson : Json δ → Int
  | .int64 value => value
  | _ => 0

/-- `i64_from_json(value).max(0) as u64`: the number of a document is an `i64`. -/
def u64FromJson (value : Json δ) : UInt64 := .ofNat (Int64.ofInt (i64FromJson value)).toInt.toNat

def boolFromJson : Json δ → Bool
  | .bool value => value
  | _ => false

/-- `Json::Integer(value as i64)` of a `u64`. -/
def u64ToJson (value : UInt64) : Json δ := .int64 value.toInt64.toInt

def durationToJson (value : Duration) : Json δ := .int64 (Int64.ofNat value).toInt

def durationFromJson (value : Json δ) : Duration := (u64FromJson value).toNat

def optionalDuration (value : Option Duration) : Json δ := (value.map durationToJson).getD .null

def optionalDurationFromJson : Json δ → Option Duration
  | .null => none
  | value => some (durationFromJson value)

def timeToJson (value : Timestamp) : Json δ := .int64 (Int64.ofInt (max value 0)).toInt

def timeFromJson (value : Json δ) : Timestamp := (u64FromJson value).toNat

def optionalTime (value : Option Timestamp) : Json δ := (value.map timeToJson).getD .null

def optionalTimeFromJson : Json δ → Option Timestamp
  | .null => none
  | value => some (timeFromJson value)

/-! ## What is read back -/

@[simp] theorem optionalStringFromJson_optionalString (value : Option Bytes) :
    optionalStringFromJson (optionalString value : Json δ) = value := by
  cases value <;> rfl

/-- A number after it has been stored. -/
def storedU64 (value : UInt64) : UInt64 := u64FromJson (u64ToJson value : Json Empty)

/-- A time after it has been stored, in nanoseconds. -/
def storedTime (value : Int) : Int := timeFromJson (timeToJson value : Json Empty)

/-- What a document has does not depend on the decimals it could have. -/
@[simp] theorem u64FromJson_u64ToJson (value : UInt64) :
    u64FromJson (u64ToJson value : Json δ) = storedU64 value := rfl

@[simp] theorem timeFromJson_timeToJson (value : Timestamp) :
    timeFromJson (timeToJson value : Json δ) = storedTime value := rfl

theorem optionalTimeFromJson_optionalTime (value : Option Timestamp) :
    optionalTimeFromJson (optionalTime value : Json δ) = value.map storedTime := by
  cases value <;> rfl

theorem toInt_toInt64 (value : UInt64) : value.toInt64.toInt = (value.toNat : Int).bmod (2 ^ 64) := by
  show value.toBitVec.toInt = _
  rw [BitVec.toInt_eq_toNat_bmod]
  rfl

/-- Every number that is read fits an `i64`. -/
theorem u64FromJson_lt (value : Json δ) : (u64FromJson value).toNat < 2 ^ 63 := by
  have hlt := (Int64.ofInt (i64FromJson value)).toInt_lt
  rw [u64FromJson, UInt64.toNat_ofNat_of_lt' (by simp only [UInt64.size]; omega)]
  omega

/-- A number that fits an `i64` is read back, any other one becomes 0. -/
theorem storedU64_eq (value : UInt64) :
    storedU64 value = if value.toNat < 2 ^ 63 then value else 0 := by
  have hlt : value.toNat < 2 ^ 64 := value.toNat_lt
  show UInt64.ofNat (Int64.ofInt value.toInt64.toInt).toInt.toNat = _
  rw [Int64.ofInt_toInt, toInt_toInt64]
  split
  · have hmod : ((value.toNat : Int).bmod (2 ^ 64)).toNat = value.toNat := by
      rw [Int.bmod_def]
      omega
    rw [hmod, UInt64.ofNat_toNat]
  · have hmod : ((value.toNat : Int).bmod (2 ^ 64)).toNat = 0 := by
      rw [Int.bmod_def]
      omega
    rw [hmod]
    rfl

theorem durationFromJson_durationToJson {value : Nat} (h : value < 2 ^ 63) :
    durationFromJson (durationToJson value : Json δ) = value := by
  show (UInt64.ofNat (Int64.ofInt (Int64.ofNat value).toInt).toInt.toNat).toNat = value
  rw [Int64.ofInt_toInt, Int64.toInt_ofNat_of_lt h, Int.toNat_natCast, UInt64.toNat_ofNat_of_lt']
  simp only [UInt64.size]
  omega

/-- A time before the epoch becomes 0, and one from 2^63 nanoseconds on wraps around. -/
theorem storedTime_eq (value : Int) : storedTime value = max 0 ((max value 0).bmod (2 ^ 64)) := by
  show ((UInt64.ofNat (Int64.ofInt (Int64.ofInt (max value 0)).toInt).toInt.toNat).toNat : Int) = _
  rw [Int64.ofInt_toInt, Int64.toInt_ofInt, show Int64.size = 2 ^ 64 from rfl]
  have hlt : (max value 0).bmod (2 ^ 64) < (2 ^ 64 + 1) / 2 := Int.bmod_lt (by decide)
  generalize (max value 0).bmod (2 ^ 64) = n at hlt ⊢
  rw [UInt64.toNat_ofNat_of_lt' (by simp only [UInt64.size]; omega)]
  omega

/-- What fits an `i64` is read back. -/
theorem storedTime_of_lt {value : Int} (h0 : 0 ≤ value) (h : value < 2 ^ 63) :
    storedTime value = value := by
  rw [storedTime_eq, Int.bmod_def]
  omega

end StateSpec.Rust
