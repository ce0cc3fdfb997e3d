/-
  THE QUEUE AND WORKFLOW STORES OF C++ AND RUST — they agree.

  `stores_agree`: both started on an empty in-memory backend, with the same requests, each in a
  transaction of its own, the two implementations succeed on the same requests and return the same
  records in the same order, and fail on the same requests with the same conflict kind.  Times are
  whole milliseconds and durations whole seconds below 2^63 nanoseconds, and counters fit an `i64`;
  payloads and states are any JSON.

  The C++ store registers its collections first (`ensured`), the Rust store does not: none of them has
  an index, so nothing else depends on it.
-/
import Mathlib.Data.List.Infix
import StateSpec.Rust.StoreLockstep

set_option linter.unusedSectionVars false

namespace StateSpec.Rust

open Memory Memory.InMemoryTransaction Program StateSpec.Runtime

variable {δ : Type} [Decimal δ] {s s' : Cpp.State δ}

/-! ## One request -/

/-- `ensure_collections`, before the transactions that call it. -/
def StoreRequest.ensured (s : Cpp.State δ) : StoreRequest δ → Except Error (Cpp.State δ)
  | .enqueue _ => Cpp.ensureCollections s queueCollections
  | .start _ => Cpp.ensureCollections s workflowCollections
  | _ => .ok s

/-- A transaction that fails leaves the state as it was. -/
def settled {S ε ρ : Type} (s : S) : Except ε (ρ × S) → Except ε ρ × S
  | .ok (response, s') => (.ok response, s')
  | .error e => (.error e, s)

/-- A request to the C++ stores. -/
def cppStep (s : Cpp.State δ) (request : StoreRequest δ) :
    Except Error (StoreResponse δ) × Cpp.State δ :=
  match request.ensured s with
  | .error e => (.error e, s)
  | .ok s => settled s (Runtime.transact s request.cpp)

/-- The same request to the Rust stores. -/
def rustStep (s : Cpp.State δ) (request : StoreRequest δ) :
    Except StoreError (StoreResponse δ) × Cpp.State δ :=
  settled s (transact s request.rust)

/-- Both succeed with the same response, or both fail with the same conflict kind, if any. -/
def Agreed : Except Error (StoreResponse δ) → Except StoreError (StoreResponse δ) → Prop
  | .ok response, .ok response' => response = response'
  | .error error, .error error' => error.conflictKind = error'.conflictKind
  | _, _ => False

theorem agreed_settled {outcome : Except Error (StoreResponse δ × Cpp.State δ)}
    {outcome' : Except StoreError (StoreResponse δ × Cpp.State δ)} (hs : SameStore Written s s')
    (h : SameOutcome
      (fun (error : Error) (error' : StoreError) => error.conflictKind = error'.conflictKind) Eq
      (SameStore Written) outcome outcome') :
    Agreed (settled s outcome).1 (settled s' outcome').1 ∧
      SameStore Written (settled s outcome).2 (settled s' outcome').2 := by
  cases outcome with
  | error error =>
    cases outcome' with
    | error error' => exact ⟨h, hs⟩
    | ok result' => exact h.elim
  | ok result =>
    cases outcome' with
    | error error' => exact h.elim
    | ok result' => exact h

/-! ## Registered collections -/

/-- The collections of both stores. -/
def storeCollections : List CollectionDescriptor := queueCollections ++ workflowCollections

theorem nodup_storeCollections : (storeCollections.map CollectionDescriptor.name).Nodup := by
  decide +kernel

/-- They are registered as the stores register them, if at all. -/
def Registered (collections : OrderedMap CollectionName CollectionDescriptor) : Prop :=
  ∀ d ∈ storeCollections, ∀ existing, collections[d.name]? = some existing → existing = d

theorem registered_stageDescriptor {staged : OrderedMap CollectionName CollectionDescriptor}
    (h : Registered staged) {d : CollectionDescriptor} (hd : d ∈ storeCollections) :
    ∃ staged', Cpp.stageDescriptor staged d = .ok staged' ∧ Registered staged' := by
  refine ⟨staged.insert d.name d, ?_, fun d' hd' existing hexisting => ?_⟩
  · rw [Cpp.stageDescriptor]
    cases hold : staged[d.name]? with
    | none => rfl
    | some existing =>
      have hupgrade := (validate_ok_iff existing d).mpr (Or.inl (h d hd existing hold))
      simp only [hupgrade]
      rfl
  · rw [OrderedMap.find_insert] at hexisting
    split at hexisting
    · rename_i hname
      rw [List.inj_on_of_nodup_map nodup_storeCollections hd' hd hname]
      exact (Option.some_inj.mp hexisting).symm
    · exact h d' hd' existing hexisting

/-- **Registering the collections of a store does not fail**, and gives none of them an index. -/
theorem ensureCollections_store {descriptors : List CollectionDescriptor}
    (hdescriptors : ∀ d ∈ descriptors, d ∈ storeCollections) (h : Registered s.collections)
    (hs : SameStore Written s s') :
    ∃ s₁, Cpp.ensureCollections s descriptors = .ok s₁ ∧ Registered s₁.collections ∧
      SameStore Written s₁ s' ∧ docs s₁ = docs s := by
  obtain ⟨staged, hstaged, hregistered⟩ : ∃ staged,
      descriptors.foldlM Cpp.stageDescriptor s.collections = .ok staged ∧ Registered staged :=
    foldlM_total Registered h fun _ d hd hstaged =>
      registered_stageDescriptor hstaged (hdescriptors d hd)
  refine ⟨Cpp.registered s descriptors hstaged, Cpp.ensureCollections_of_staged hstaged, hregistered,
    ⟨hs.counters, hs.records, fun c name => ?_, hs.plain'⟩, rfl⟩
  show descriptorOf (Cpp.registerIndexes s descriptors) c name = none
  rcases Cpp.registerIndexes_cases s descriptors c with ⟨heq, -⟩ | ⟨-, d, hd, -, heq⟩
  · rw [Cpp.descriptorOf_congr heq]
    exact hs.plain c name
  · have hindexes : ∀ d ∈ storeCollections, d.indexes = [] := by decide
    rw [descriptorOf, OrderedMap.find₂, heq, Option.bind_some, find_emptyIndexStates,
      hindexes d (hdescriptors d hd)]
    rfl

theorem ensured_store (request : StoreRequest δ) (h : Registered s.collections)
    (hs : SameStore Written s s') :
    ∃ s₁, request.ensured s = .ok s₁ ∧ Registered s₁.collections ∧ SameStore Written s₁ s' ∧
      docs s₁ = docs s := by
  cases request with
  | enqueue request => exact ensureCollections_store (fun d hd => List.mem_append_left _ hd) h hs
  | start request => exact ensureCollections_store (fun d hd => List.mem_append_right _ hd) h hs
  | _ => exact ⟨s, rfl, h, hs, rfl⟩

/-- A transaction registers nothing. -/
theorem collections_transact {ρ : Type} {p : Runtime.TxProgram δ ρ} :
    (settled s (Runtime.transact s p)).2.collections = s.collections := by
  rw [Runtime.transact, Machine.transact]
  cases (Runtime.machine s).drive p begin with
  | error error => rfl
  | ok result =>
    cases hcommit : Cpp.commit s result.2 with
    | error error =>
      simp only [hcommit]
      rfl
    | ok committed =>
      obtain ⟨-, -, indexes, hst, rfl⟩ := commit_ok (Cpp.commit_ok_iff.mp hcommit)
      simp only [hcommit]
      rfl

/-! ## Runs -/

/-- **One request** to both stores. -/
theorem agreed_step {request : StoreRequest δ}
    (h : SameStore Written s s' ∧ Registered s.collections) (hfit : CountersFit (docs s))
    (htimely : request.Timely) :
    Agreed (cppStep s request).1 (rustStep s' request).1 ∧
      SameStore Written (cppStep s request).2 (rustStep s' request).2 ∧
        Registered (cppStep s request).2.collections := by
  obtain ⟨s₁, hensured, hregistered, hs, hdocs⟩ := ensured_store request h.2 h.1
  have hstored : SameStore Stored s₁ s' := hs.stored (hdocs ▸ hfit)
  have hsame := sameOutcome_transact hstored (fun _ _ _ => SameDocument.written)
    (lockstep_request htimely)
  obtain ⟨hagreed, hafter⟩ := agreed_settled hs hsame
  simp only [cppStep, hensured]
  refine ⟨hagreed, hafter, ?_⟩
  rw [collections_transact]
  exact hregistered

/-- **The queue and workflow stores of C++ and Rust agree**, on every sequence of requests. -/
theorem stores_agree (requests : List (StoreRequest δ))
    (htimely : ∀ request ∈ requests, request.Timely)
    (hfit : ∀ done, done <+: requests →
      CountersFit (docs (stateAfter cppStep InMemoryState.empty done))) :
    List.Forall₂ Agreed (outcomes cppStep InMemoryState.empty requests)
      (outcomes rustStep InMemoryState.empty requests) := by
  refine forall₂_outcomes (@agreed_step δ _) ?_ htimely hfit
  refine ⟨SameStore.empty, fun d _ existing h => ?_⟩
  simp [InMemoryState.empty] at h

/-- Two messages, claimed one at a time by `a`; `b` must not acknowledge what it has not claimed. -/
def claimingOneByOne : List (StoreRequest Empty) :=
  [.enqueue { messageId := ascii "m", queue := ascii "q", channel := ascii "c",
              idempotencyKey := some (ascii "k"), payload := .null },
   .enqueue { messageId := ascii "n", queue := ascii "q", channel := ascii "c", payload := .null },
   .claim { queue := ascii "q", channel := ascii "c", claimant := ascii "a", now := 0,
            visibilityTimeout := 10 },
   .acknowledge { messageId := ascii "n", claimant := ascii "b" }]

theorem stores_agree_claiming :
    List.Forall₂ Agreed (outcomes cppStep InMemoryState.empty claimingOneByOne)
      (outcomes rustStep InMemoryState.empty claimingOneByOne) := by
  refine stores_agree claimingOneByOne ?_ fun done hdone => ?_
  · simp only [claimingOneByOne, List.forall_mem_cons, StoreRequest.Timely, true_and]
    exact ⟨⟨⟨by decide, by decide, by decide⟩, by decide, by decide⟩, List.forall_mem_nil _⟩
  · have hall : ∀ done ∈ claimingOneByOne.inits,
        CountersFit (docs (stateAfter cppStep InMemoryState.empty done)) := by decide +kernel
    exact hall done ((List.mem_inits done claimingOneByOne).mpr hdone)

end StateSpec.Rust
