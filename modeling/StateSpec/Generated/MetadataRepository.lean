/-
  THE OPERATOR METADATA REPOSITORY — `DefaultExternalSystemOperatorMetadataRepository` of
  `generated/external_system_metadata_runtime.hpp.tmpl`.

  The metadata of an external system is kept as records of an entity, under the key that an entity
  repository makes of the same key fields.  `upsert_metadataTx` stores the document of the caller;
  `disable_metadataTx` and `delete_metadataTx` set the status of the document that is there.
-/
import StateSpec.Generated.EntityRepository

namespace StateSpec

namespace Generated

open Cpp

variable {δ : Type}

/-- The fields of an `ExternalSystemMetadataLookup` that make the key. -/
structure ExternalSystemMetadataLookup (δ : Type) where
  metadataEntity : Bytes
  keyFields : List Bytes
  keyValues : List (EntityKeyValue δ)

/-- The lookup of the metadata entity: both have the same key and the same documents with keys. -/
def ExternalSystemMetadataLookup.entityLookup (lookup : ExternalSystemMetadataLookup δ) :
    EntityLookup δ where
  entity := lookup.metadataEntity
  keyFields := lookup.keyFields
  keyValues := lookup.keyValues

/-- `external_system_metadata_key`. -/
def externalSystemMetadataKey [Decimal δ] (lookup : ExternalSystemMetadataLookup δ) : Option Key :=
  entityKey lookup.entityLookup

/-- `external_system_metadata_document_with_keys`. -/
def externalSystemMetadataDocumentWithKeys (document : Json δ)
    (lookup : ExternalSystemMetadataLookup δ) : Json δ :=
  entityDocumentWithKeys document lookup.entityLookup

structure ExternalSystemOperatorMetadataUpsertRequest (δ : Type) where
  lookup : ExternalSystemMetadataLookup δ
  document : Json δ
  expectedVersion : Option Version := none

structure ExternalSystemOperatorMetadataDisableRequest (δ : Type) where
  lookup : ExternalSystemMetadataLookup δ
  expectedVersion : Option Version := none
  disabledStatus : Bytes := ascii "Disabled"

structure ExternalSystemOperatorMetadataDeleteRequest (δ : Type) where
  lookup : ExternalSystemMetadataLookup δ
  expectedVersion : Option Version := none
  deletedStatus : Bytes := ascii "Deleted"

def metadataVersionMessage : Bytes := ascii "external system metadata version conflict"

/-- `assert_expected_version`. -/
def assertExpectedMetadataVersion (existing : Option (VersionedRecord δ))
    (expectedVersion : Option Version) : Except Error Unit :=
  match expectedVersion with
  | none => .ok ()
  | some expected =>
    match existing with
    | some record =>
      if record.version = expected then .ok ()
      else .error (.conflictError .versionConflict metadataVersionMessage)
    | none => .error (.conflictError .versionConflict metadataVersionMessage)

variable [Decimal δ]

/-- `upsert_metadataTx`. -/
def upsertMetadataTx (request : ExternalSystemOperatorMetadataUpsertRequest δ) :
    Script δ (Option (VersionedRecord δ)) :=
  match externalSystemMetadataKey request.lookup with
  | none => pure none
  | some key => do
    let existing ← getTx request.lookup.metadataEntity key
    Script.ofExcept (assertExpectedMetadataVersion existing request.expectedVersion)
    putTx request.lookup.metadataEntity key
      (externalSystemMetadataDocumentWithKeys request.document request.lookup)
    getTx request.lookup.metadataEntity key

/-- The document `update_statusTx` stores: `object["status"] = status`. -/
def documentWithStatus (document : Json δ) (lookup : ExternalSystemMetadataLookup δ)
    (status : Bytes) : Json δ :=
  .object (Json.assign (ascii "status") (.string status)
    (externalSystemMetadataDocumentWithKeys document lookup).members)

/-- `update_statusTx`. -/
def updateStatusTx (lookup : ExternalSystemMetadataLookup δ) (expectedVersion : Option Version)
    (status : Bytes) : Script δ (Option (VersionedRecord δ)) :=
  match externalSystemMetadataKey lookup with
  | none => pure none
  | some key => do
    match ← getTx lookup.metadataEntity key with
    | none => pure none
    | some existing => do
      Script.ofExcept (assertExpectedMetadataVersion (some existing) expectedVersion)
      putTx lookup.metadataEntity key (documentWithStatus existing.document lookup status)
      getTx lookup.metadataEntity key

/-- `disable_metadataTx`. -/
def disableMetadataTx (request : ExternalSystemOperatorMetadataDisableRequest δ) :
    Script δ (Option (VersionedRecord δ)) :=
  updateStatusTx request.lookup request.expectedVersion request.disabledStatus

/-- `delete_metadataTx`. -/
def deleteMetadataTx (request : ExternalSystemOperatorMetadataDeleteRequest δ) :
    Script δ (Option (VersionedRecord δ)) :=
  updateStatusTx request.lookup request.expectedVersion request.deletedStatus

/-! ## What the operations come to -/

/-- Operations of the repository make no query. -/
theorem point_upsertMetadataTx (request : ExternalSystemOperatorMetadataUpsertRequest δ) :
    (upsertMetadataTx request).Point := by
  rw [upsertMetadataTx]
  split
  · trivial
  · exact Script.point_do (point_getTx _ _) fun existing =>
      Script.point_do (Script.point_ofExcept _) fun _ =>
        Script.point_do trivial fun _ => point_getTx _ _

theorem point_updateStatusTx (lookup : ExternalSystemMetadataLookup δ)
    (expectedVersion : Option Version) (status : Bytes) :
    (updateStatusTx lookup expectedVersion status).Point := by
  rw [updateStatusTx]
  split
  · trivial
  · refine Script.point_do (point_getTx _ _) fun existing => ?_
    cases existing with
    | none => trivial
    | some record =>
      exact Script.point_do (Script.point_ofExcept _) fun _ =>
        Script.point_do trivial fun _ => point_getTx _ _

variable {s : State δ} {t : Tx δ} {places : List Place}

/-- A put that comes after a check, when the transaction has only read. -/
theorem eval_put_checked (h : ReadOnly s t places) {check : Except Error Unit}
    {c : CollectionName} {key : Key} {document : Json δ} {a : Option (VersionedRecord δ)} {t' : Tx δ}
    (heval : (Script.ofExcept check >>= fun _ => putTx c key document >>= fun _ =>
      getTx c key).eval s t = (.ok a, t')) :
    ∃ places', Written s t' c key document places' := by
  obtain ⟨u, mid, hcheck, hrest⟩ := Script.of_eval_do heval
  obtain ⟨-, rfl⟩ := Script.of_eval_ofExcept hcheck
  obtain ⟨t₂, hput, hwritten⟩ := eval_putTx h c key document
  rw [Script.eval_do hput, eval_getTx_written hwritten] at hrest
  obtain ⟨-, rfl⟩ := Prod.mk.inj hrest
  exact ⟨_, hwritten⟩

/-- **An upsert that returns** has stored the document of the caller, if its lookup has a key. -/
theorem written_upsertMetadataTx (h : ReadOnly s t places)
    {request : ExternalSystemOperatorMetadataUpsertRequest δ} {key : Key}
    (hkey : externalSystemMetadataKey request.lookup = some key)
    {a : Option (VersionedRecord δ)} {t' : Tx δ}
    (heval : (upsertMetadataTx request).eval s t = (.ok a, t')) :
    ∃ places', Written s t' request.lookup.metadataEntity key
      (externalSystemMetadataDocumentWithKeys request.document request.lookup) places' := by
  simp only [upsertMetadataTx, hkey] at heval
  obtain ⟨t₁, hget, hread⟩ := eval_getTx h request.lookup.metadataEntity key
  rw [Script.eval_do hget] at heval
  exact eval_put_checked hread heval

/-- **An update of the status that returns** has stored the document that is there with the status. -/
theorem written_updateStatusTx (h : ReadOnly s t places)
    {lookup : ExternalSystemMetadataLookup δ} {expectedVersion : Option Version} {status : Bytes}
    {key : Key} (hkey : externalSystemMetadataKey lookup = some key) {record : VersionedRecord δ}
    (hrecord : s.recordAt lookup.metadataEntity key = some record)
    {a : Option (VersionedRecord δ)} {t' : Tx δ}
    (heval : (updateStatusTx lookup expectedVersion status).eval s t = (.ok a, t')) :
    ∃ places', Written s t' lookup.metadataEntity key
      (documentWithStatus record.document lookup status) places' := by
  simp only [updateStatusTx, hkey] at heval
  obtain ⟨t₁, hget, hread⟩ := eval_getTx h lookup.metadataEntity key
  rw [Script.eval_do hget, hrecord] at heval
  exact eval_put_checked hread heval

/-- Without a record there is nothing to update. -/
theorem readOnly_updateStatusTx (h : ReadOnly s t places)
    {lookup : ExternalSystemMetadataLookup δ} {expectedVersion : Option Version} {status : Bytes}
    (hnone : ∀ key, externalSystemMetadataKey lookup = some key →
      s.recordAt lookup.metadataEntity key = none)
    {a : Option (VersionedRecord δ)} {t' : Tx δ}
    (heval : (updateStatusTx lookup expectedVersion status).eval s t = (.ok a, t')) :
    ∃ places', ReadOnly s t' places' := by
  cases hkey : externalSystemMetadataKey lookup with
  | none =>
    simp only [updateStatusTx, hkey] at heval
    obtain ⟨-, rfl⟩ := Prod.mk.inj heval
    exact ⟨_, h⟩
  | some key =>
    simp only [updateStatusTx, hkey] at heval
    obtain ⟨t₁, hget, hread⟩ := eval_getTx h lookup.metadataEntity key
    rw [Script.eval_do hget, hnone key hkey] at heval
    obtain ⟨-, rfl⟩ := Prod.mk.inj heval
    exact ⟨_, hread⟩

end Generated

end StateSpec
