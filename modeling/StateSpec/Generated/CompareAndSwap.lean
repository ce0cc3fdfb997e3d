/-
  COMPARE AND SWAP — the writes of the repositories that are told which version they replace.

  `upsert_entityTx`, `delete_entityTx`, `upsert_metadataTx`, `disable_metadataTx` and
  `delete_metadataTx` read the record, compare its version with the expected one, and write.  All five
  perform the same operations as far as that goes (`WriteCall.performs`).  The version is compared when
  the call is made, but the read is validated by the commit: what was read is what the commit finds
  (`read_at_commit`).

  A version of a record is its counter, and a commit that writes the record moves the counter on, also
  when it erases the record; so a version never comes back, and no two commits replace the same one:
  `compare_and_swap`.
-/
import StateSpec.Cpp.Transcripts
import StateSpec.Generated.MetadataRepository

set_option linter.unusedSectionVars false

namespace StateSpec

namespace Generated

open Cpp Memory Memory.InMemoryTransaction Interleaving

variable {δ : Type} [Decimal δ]

/-! ## The calls -/

/-- A write of a repository. -/
inductive WriteCall (δ : Type) where
  | upsertEntity (lookup : EntityLookup δ) (document : Json δ) (expectedVersion : Option Version)
  | deleteEntity (lookup : EntityLookup δ) (expectedVersion : Option Version)
  | upsertMetadata (request : ExternalSystemOperatorMetadataUpsertRequest δ)
  | disableMetadata (request : ExternalSystemOperatorMetadataDisableRequest δ)
  | deleteMetadata (request : ExternalSystemOperatorMetadataDeleteRequest δ)

namespace WriteCall

def script : WriteCall δ → Script δ (Option (VersionedRecord δ))
  | .upsertEntity lookup document expectedVersion => upsertEntityTx lookup document expectedVersion
  | .deleteEntity lookup expectedVersion => deleteEntityTx lookup expectedVersion
  | .upsertMetadata request => upsertMetadataTx request
  | .disableMetadata request => disableMetadataTx request
  | .deleteMetadata request => deleteMetadataTx request

def lookup : WriteCall δ → EntityLookup δ
  | .upsertEntity lookup _ _ | .deleteEntity lookup _ => lookup
  | .upsertMetadata request => request.lookup.entityLookup
  | .disableMetadata request => request.lookup.entityLookup
  | .deleteMetadata request => request.lookup.entityLookup

def expectedVersion : WriteCall δ → Option Version
  | .upsertEntity _ _ expectedVersion | .deleteEntity _ expectedVersion => expectedVersion
  | .upsertMetadata request => request.expectedVersion
  | .disableMetadata request => request.expectedVersion
  | .deleteMetadata request => request.expectedVersion

/-- The record the call is about. -/
def place (call : WriteCall δ) : Option (CollectionName × Key) :=
  (entityKey call.lookup).map (call.lookup.entity, ·)

theorem place_of_key {call : WriteCall δ} {key : Key} (h : entityKey call.lookup = some key) :
    call.place = some (call.lookup.entity, key) := by
  rw [place, h]
  rfl

/-! ## What a call performs -/

/-- The operations read the record in its expected version, and go on to write it. -/
def Swapped (c : CollectionName) (k : Key) (v : Version) (seen : VersionedRecord δ)
    (calls : Transcript δ) : Prop :=
  ∃ rest, calls = (.get c k, .ok (.record (some seen))) :: rest ∧ seen.version = v ∧
    ∃ call ∈ rest, Writes c k call.1

variable {calls : Transcript δ} {ρ : Type} {a : ρ} {c : CollectionName} {k : Key} {v : Version}
  {document : Json δ}

omit [Decimal δ] in
theorem assertExpectedVersion_ok {existing : Option (VersionedRecord δ)}
    (h : assertExpectedVersion existing (some v) = .ok ()) :
    ∃ seen, existing = some seen ∧ seen.version = v := by
  cases existing with
  | none => cases h
  | some seen =>
    rw [assertExpectedVersion] at h
    split at h
    · exact ⟨seen, rfl, by assumption⟩
    · cases h

omit [Decimal δ] in
theorem assertExpectedMetadataVersion_ok {existing : Option (VersionedRecord δ)}
    (h : assertExpectedMetadataVersion existing (some v) = .ok ()) :
    ∃ seen, existing = some seen ∧ seen.version = v := by
  cases existing with
  | none => cases h
  | some seen =>
    rw [assertExpectedMetadataVersion] at h
    split at h
    · exact ⟨seen, rfl, by assumption⟩
    · cases h

omit [Decimal δ] in
/-- A check that comes before a write has been passed. -/
theorem performs_checked {check : Except Error Unit} {next : Script δ ρ}
    (h : (Script.ofExcept check >>= fun _ => next).Performs calls (.ok a)) :
    check = .ok () ∧ next.Performs calls (.ok a) := by
  cases check with
  | error e => exact absurd h Script.performs_throw
  | ok u => exact ⟨rfl, h⟩

omit [Decimal δ] in
/-- A script that reads the record, checks its version and writes it. -/
theorem performs_put_checked {check : Option (VersionedRecord δ) → Except Error Unit}
    (hcheck : ∀ existing, check existing = .ok () → ∃ seen, existing = some seen ∧ seen.version = v)
    {next : Script δ ρ}
    (h : (getTx c k >>= fun existing => Script.ofExcept (check existing) >>= fun _ =>
      putTx c k document >>= fun _ => next).Performs calls (.ok a)) :
    ∃ seen, Swapped c k v seen calls := by
  obtain ⟨existing, rest, rfl, hrest⟩ := Script.performs_get.mp h
  obtain ⟨hchecked, hput⟩ := performs_checked hrest
  obtain ⟨seen, rfl, hversion⟩ := hcheck existing hchecked
  obtain ⟨rest', rfl, -⟩ := Script.performs_put.mp hput
  exact ⟨seen, _, rfl, hversion, _, List.mem_cons_self, ⟨rfl, rfl⟩⟩

/-- The same of `update_statusTx`, which leaves a record alone that is not there. -/
theorem performs_updateStatusTx {lookup : ExternalSystemMetadataLookup δ} {status : Bytes}
    {result : VersionedRecord δ}
    (h : (updateStatusTx lookup (some v) status).Performs calls (.ok (some result))) :
    ∃ key seen, entityKey lookup.entityLookup = some key ∧
      Swapped lookup.metadataEntity key v seen calls := by
  rw [updateStatusTx, externalSystemMetadataKey] at h
  cases hkey : entityKey lookup.entityLookup with
  | none =>
    rw [hkey] at h
    cases (Script.performs_ret.mp h).2
  | some key =>
    rw [hkey] at h
    obtain ⟨existing, rest, rfl, hrest⟩ := Script.performs_get.mp h
    cases existing with
    | none => cases (Script.performs_ret.mp hrest).2
    | some seen =>
      obtain ⟨hchecked, hput⟩ := performs_checked hrest
      obtain ⟨seen', heq, hversion⟩ := assertExpectedMetadataVersion_ok hchecked
      obtain rfl := Option.some_inj.mp heq
      obtain ⟨rest', rfl, -⟩ := Script.performs_put.mp hput
      exact ⟨key, seen, rfl, _, rfl, hversion, _, List.mem_cons_self, ⟨rfl, rfl⟩⟩

/-- **What a call performs that succeeds**: it reads the record in its expected version, and writes
    it. -/
theorem performs {call : WriteCall δ} (hexpected : call.expectedVersion = some v)
    {result : VersionedRecord δ} (h : call.script.Performs calls (.ok (some result))) :
    ∃ c k seen, call.place = some (c, k) ∧ Swapped c k v seen calls := by
  cases call with
  | upsertEntity lookup document expectedVersion =>
    obtain rfl : expectedVersion = some v := hexpected
    simp only [script, upsertEntityTx] at h
    cases hkey : entityKey lookup with
    | none =>
      rw [hkey] at h
      cases (Script.performs_ret.mp h).2
    | some key =>
      rw [hkey] at h
      obtain ⟨seen, hswapped⟩ := performs_put_checked (fun _ => assertExpectedVersion_ok) h
      exact ⟨_, key, seen, place_of_key hkey, hswapped⟩
  | deleteEntity lookup expectedVersion =>
    obtain rfl : expectedVersion = some v := hexpected
    simp only [script, deleteEntityTx] at h
    cases hkey : entityKey lookup with
    | none =>
      rw [hkey] at h
      cases (Script.performs_ret.mp h).2
    | some key =>
      rw [hkey] at h
      obtain ⟨existing, rest, rfl, hrest⟩ := Script.performs_get.mp h
      cases existing with
      | none => cases (Script.performs_ret.mp hrest).2
      | some seen =>
        obtain ⟨hchecked, herase⟩ := performs_checked hrest
        obtain ⟨seen', heq, hversion⟩ := assertExpectedVersion_ok hchecked
        obtain rfl := Option.some_inj.mp heq
        obtain ⟨rest', rfl, -⟩ := Script.performs_erase.mp herase
        exact ⟨_, key, seen, place_of_key hkey, _, rfl, hversion, _,
          List.mem_cons_self, ⟨rfl, rfl⟩⟩
  | upsertMetadata request =>
    obtain ⟨lookup, document, expectedVersion⟩ := request
    obtain rfl : expectedVersion = some v := hexpected
    simp only [script, upsertMetadataTx, externalSystemMetadataKey] at h
    cases hkey : entityKey lookup.entityLookup with
    | none =>
      rw [hkey] at h
      cases (Script.performs_ret.mp h).2
    | some key =>
      rw [hkey] at h
      obtain ⟨seen, hswapped⟩ := performs_put_checked (fun _ => assertExpectedMetadataVersion_ok) h
      exact ⟨_, key, seen, place_of_key hkey, hswapped⟩
  | disableMetadata request =>
    obtain ⟨lookup, expectedVersion, status⟩ := request
    obtain rfl : expectedVersion = some v := hexpected
    obtain ⟨key, seen, hkey, hswapped⟩ := performs_updateStatusTx h
    exact ⟨_, key, seen, place_of_key hkey, hswapped⟩
  | deleteMetadata request =>
    obtain ⟨lookup, expectedVersion, status⟩ := request
    obtain rfl : expectedVersion = some v := hexpected
    obtain ⟨key, seen, hkey, hswapped⟩ := performs_updateStatusTx h
    exact ⟨_, key, seen, place_of_key hkey, hswapped⟩

end WriteCall

/-! ## Commits -/

abbrev StoreEvent (δ : Type) [Decimal δ] := TxEvent δ (Query δ) (List CollectionDescriptor)

/-- The backend after a run from the start. -/
def storeRun (es : List (StoreEvent δ)) : TxWorld δ (Query δ) :=
  run store (World.init InMemoryState.empty) es

/-- **A transaction commits a swap**: its first operation on a record is a write call with the expected
    version `v`, the call has succeeded, and the transaction commits now. -/
structure Swap (w : TxWorld δ (Query δ)) (n : Nat) (c : CollectionName) (k : Key) (v : Version) where
  slot : TxSlot δ (Query δ)
  found : w.slots[n]? = some slot
  committed : State δ × Tx δ
  commits : Cpp.commit w.shared slot.tx = .ok committed
  first : Transcript δ
  calls : Transcript δ
  rest : Transcript δ
  script : slot.script = first ++ calls ++ rest
  call : WriteCall δ
  result : VersionedRecord δ
  performed : call.script.Performs calls (.ok (some result))
  place : call.place = some (c, k)
  expected : call.expectedVersion = some v
  isFirst : ∀ entry ∈ first, named entry.1 ≠ some (c, k)

/-- The record the call has read. -/
def Swap.Saw {w : TxWorld δ (Query δ)} {n : Nat} {c : CollectionName} {k : Key} {v : Version}
    (swap : Swap w n c k v) (record : VersionedRecord δ) : Prop :=
  swap.calls.head? = some (.get c k, .ok (.record (some record)))

/-- The operations of a transaction are over collections without ':' in their names. -/
def PlainTranscript (transcript : Transcript δ) : Prop :=
  ∀ entry ∈ transcript, colon ∉ collectionOf entry.1

theorem plainTranscript_run {es : List (StoreEvent δ)} (hplain : ∀ e ∈ es, PlainEvent e) :
    ∀ slot ∈ (storeRun es).slots, PlainTranscript slot.script := by
  have hset : ∀ {w : TxWorld δ (Query δ)} {n : Nat} {new : TxSlot δ (Query δ)},
      (∀ slot ∈ w.slots, PlainTranscript slot.script) → PlainTranscript new.script →
      ∀ slot ∈ w.slots.set n new, PlainTranscript slot.script := by
    intro w n new h hnew slot hmem
    rcases List.mem_or_eq_of_mem_set hmem with hold | rfl
    · exact h slot hold
    · exact hnew
  refine run_invariant store (C := fun _ e => PlainEvent e)
    (P := fun w => ∀ slot ∈ w.slots, PlainTranscript slot.script) ?_
    (runMeets_of_mem store hplain _) fun slot hmem => absurd hmem List.not_mem_nil
  intro w e he h
  rcases step_cases store w e with hw | ⟨i, rfl, hw⟩ | ⟨n, o, slot, rfl, hn, hw⟩ |
    ⟨n, g, slot, r, rfl, hn, hc, hw⟩ | ⟨n, slot, rfl, hn, hw⟩ | ⟨a, rfl, hw⟩ <;> rw [hw]
  · exact h
  · intro slot hmem
    rcases List.mem_append.mp hmem with hold | hnew
    · exact h slot hold
    · obtain rfl := List.mem_singleton.mp hnew
      exact fun entry hentry => absurd hentry List.not_mem_nil
  · refine hset h fun entry hentry => ?_
    rcases List.mem_append.mp hentry with hold | hnew
    · exact h slot (List.mem_of_getElem? hn) entry hold
    · obtain rfl := List.mem_singleton.mp hnew
      exact he
  · exact hset h (h slot (List.mem_of_getElem? hn))
  · exact hset h (h slot (List.mem_of_getElem? hn))
  · exact h

section

variable {es : List (StoreEvent δ)} {n : Nat} {c : CollectionName} {k : Key} {v : Version}

theorem inv_storeRun (es : List (StoreEvent δ)) :
    storeDiscipline.Inv InMemoryState.empty (storeRun es) :=
  Discipline.run_inv _ (allowed_all _ es)

/-- A record that is there has the version of its counter. -/
theorem exact_storeRun (hplain : ∀ e ∈ es, PlainEvent e) : Exact (storeRun es).shared :=
  (plainWorld_run hplain).exact

/-- **What a swap finds, and what it leaves**: the committed record is the one it has read, in the
    expected version, and the commit moves the counter of the record on. -/
theorem Swap.record (hplain : ∀ e ∈ es, PlainEvent e) (swap : Swap (storeRun es) n c k v) :
    ∃ record, swap.Saw record ∧ (storeRun es).shared.recordAt c k = some record ∧
      record.version = v ∧ swap.committed.1.counter (recordVersionKey c k) = v + 1 := by
  have hmem := List.mem_of_getElem? swap.found
  obtain ⟨hopen, -, _, hst, hr⟩ := commit_ok (commit_ok_iff.mp swap.commits)
  have hreplay := ((inv_storeRun es).slots swap.slot hmem hopen).2 _ (Later.refl _)
    (valid_of_commit (commit_ok_iff.mp swap.commits))
  obtain ⟨c', k', seen, hplace, calls, hcalls, hversion, write, hwrite, hwrites⟩ :=
    WriteCall.performs swap.expected swap.performed
  obtain ⟨rfl, rfl⟩ := Prod.mk.inj (Option.some_inj.mp (hplace.symm.trans swap.place))
  have hscript : swap.slot.script =
      swap.first ++ (.get c' k', .ok (.record (some seen))) :: (calls ++ swap.rest) := by
    rw [swap.script, hcalls, List.append_assoc, List.cons_append]
  have hcolon := plainTranscript_run hplain swap.slot hmem
  have hget : colon ∉ c' := hcolon (.get c' k', .ok (.record (some seen))) (by rw [hscript]; simp)
  -- what was written before the call was written elsewhere
  have hfirst : ∀ entry ∈ swap.first, ∀ c k, Writes c k entry.1 →
      recordVersionKey c k ≠ recordVersionKey c' k' := by
    intro entry hentry c k hwrites hkey
    have hname := named_of_writes hwrites
    have hc : colon ∉ collectionOf entry.1 :=
      hcolon entry (by rw [hscript]; exact List.mem_append_left _ hentry)
    rw [collectionOf_of_writes hwrites] at hc
    obtain ⟨rfl, rfl⟩ := recordVersionKey_inj hc hget hkey
    exact swap.isFirst entry hentry hname
  have hat : (storeRun es).shared.recordAt c' k' = some seen :=
    read_at_commit (hscript ▸ hreplay) hfirst
  have hover : swap.slot.tx.Overlays (recordVersionKey c' k') := by
    refine (overlays_of_replay hreplay).mpr ⟨write, ?_, c', k', hwrites, rfl⟩
    rw [hscript]
    simp [hwrite]
  refine ⟨seen, ?_, hat, hversion, ?_⟩
  · rw [Swap.Saw, hcalls]
    rfl
  · rw [hr, counter_committed, if_pos hover, ← (exact_storeRun hplain c' k' seen hat).2, hversion]

/-- A version of a record is the same record for ever. -/
theorem eq_of_version {before later : List (StoreEvent δ)}
    (hplain : ∀ e ∈ before ++ later, PlainEvent e) {r r' : VersionedRecord δ}
    (hr : (storeRun before).shared.recordAt c k = some r)
    (hr' : (storeRun (before ++ later)).shared.recordAt c k = some r')
    (hversion : r.version = r'.version) : r = r' := by
  have hcounter := (exact_storeRun (fun e he => hplain e (List.mem_append_left _ he)) c k r hr).2
  have hcounter' := (exact_storeRun hplain c k r' hr').2
  have hlater : Later (storeRun before).shared (storeRun (before ++ later)).shared := by
    rw [storeRun, storeRun, run_append]
    exact storeDiscipline.run_later _ _
  have hsame := hlater.record c k (by rw [← hcounter, ← hcounter', hversion])
  rw [hr, hr'] at hsame
  exact (Option.some_inj.mp hsame).symm

/-- After the commit of a swap the version is gone. -/
theorem Swap.gone {later : List (StoreEvent δ)}
    (hplain : ∀ e ∈ es ++ .commit n () :: later, PlainEvent e) (swap : Swap (storeRun es) n c k v)
    {n' : Nat} (swap' : Swap (storeRun (es ++ .commit n () :: later)) n' c k v) : False := by
  obtain ⟨-, -, -, -, hmoved⟩ := swap.record fun e he => hplain e (List.mem_append_left _ he)
  obtain ⟨record, -, hat, hversion, -⟩ := swap'.record hplain
  have hcounter := (exact_storeRun hplain c k record hat).2
  have hstep : storeRun (es ++ .commit n () :: later) =
      run store ((storeRun es).committed n swap.slot () swap.committed) later := by
    have hcommit : (store (δ := δ)).commit () (storeRun es).shared swap.slot.tx =
        .ok swap.committed := swap.commits
    have hes : run store (World.init (InMemoryState.empty : State δ)) es = storeRun es := rfl
    rw [storeRun, run_append, run_cons, hes]
    simp only [step, swap.found, hcommit]
  have hlater : Later swap.committed.1 (storeRun (es ++ .commit n () :: later)).shared := by
    rw [hstep]
    exact (storeDiscipline (δ := δ)).run_later
      ((storeRun es).committed n swap.slot () swap.committed) later
  have hle := hlater.counter (recordVersionKey c k)
  rw [hmoved, ← hcounter, hversion] at hle
  exact Nat.not_succ_le_self v hle

end

/-! ## A swap -/

/-- The user `a`. -/
def userLookup : EntityLookup Empty where
  entity := ascii "users"
  keyFields := [ascii "id"]
  keyValues := [⟨ascii "id", .string (ascii "a")⟩]

/-- Transaction 0 stores the user, transaction 1 replaces the first version. -/
def swapBefore : List (StoreEvent Empty) :=
  [.begin (), .op 0 (.put (ascii "users") (ascii "id=\"a\"\n") .null), .commit 0 (),
    .begin (), .op 1 (.get (ascii "users") (ascii "id=\"a\"\n")),
    .op 1 (.put (ascii "users") (ascii "id=\"a\"\n") (entityDocumentWithKeys .null userLookup)),
    .op 1 (.get (ascii "users") (ascii "id=\"a\"\n"))]

theorem plain_swap : ∀ e ∈ swapBefore ++ [.commit 1 ()], PlainEvent e := by
  simp only [swapBefore, List.cons_append, List.nil_append, List.forall_mem_cons,
    PlainEvent, collectionOf, List.not_mem_nil, false_implies, implies_true, and_true, true_and]
  decide

/-- Transaction 1 has called `upsert_entityTx`. -/
def userSwap : Swap (storeRun swapBefore) 1 (ascii "users") (ascii "id=\"a\"\n") 1 where
  slot := (storeRun swapBefore).slots.getD 1 ⟨(), begin, []⟩
  found := rfl
  committed := _
  commits := rfl
  first := []
  calls := [
    (.get (ascii "users") (ascii "id=\"a\"\n"), .ok (.record (some
      { stagedRecord (ascii "users") (ascii "id=\"a\"\n") .null with version := 1 }))),
    (.put (ascii "users") (ascii "id=\"a\"\n") (entityDocumentWithKeys .null userLookup),
      .ok .done),
    (.get (ascii "users") (ascii "id=\"a\"\n"), .ok (.record (some
      (stagedRecord (ascii "users") (ascii "id=\"a\"\n")
        (entityDocumentWithKeys .null userLookup)))))]
  rest := []
  script := rfl
  call := .upsertEntity userLookup .null (some 1)
  result := stagedRecord (ascii "users") (ascii "id=\"a\"\n")
    (entityDocumentWithKeys .null userLookup)
  performed := .get (.put (.get (.ret _)))
  place := rfl
  expected := rfl
  isFirst _ hentry := absurd hentry List.not_mem_nil

end Generated

end StateSpec
