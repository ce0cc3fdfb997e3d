/-
  INDEX CONSISTENCY of the C++ in-memory backend.

  `IndexConsistent` says that every registered index files exactly the image of the committed
  records of its collection, with no empty sets, and that a unique index has one record per key.

  * `commit_keeps_consistency` — every commit keeps it, whatever is staged and erased;
  * `registration_consistent_iff` — a registration keeps it, and covers the published descriptors,
    exactly when `RegistrationCovered` holds: a registered collection has all declared indexes
    already, and a new one holds no record that a declared index would have to file.

  The condition is about what registration does NOT do: it never builds an index.  An accepted
  upgrade that adds an index to a populated collection publishes a descriptor whose index does not
  exist, and queries through it find nothing (`upgrade_uncovered`).
-/
import StateSpec.Cpp.Backend

set_option linter.unusedSectionVars false

namespace StateSpec.Cpp

open StateSpec.Memory StateSpec.Memory.InMemoryTransaction

variable {δ : Type} [Decimal δ]

/-- Every registered index is exactly the image of the committed records. -/
structure IndexConsistent (s : State δ) : Prop where
  image : ∀ c name d, descriptorOf s.indexes c name = some d → ∀ ikey k,
    Files s.indexes c name ikey k ↔
      ∃ r, s.recordAt c k = some r ∧ entryKey r.document d = .ok ikey
  tidy : AllTidy s.indexes
  unique : Unique s.indexes

/-- Without records, empty indexes are consistent. -/
theorem indexConsistent_of_no_records {s : State δ} (hrecords : ∀ c k, s.recordAt c k = none)
    (htidy : AllTidy s.indexes) : IndexConsistent s := by
  have hfiles : ∀ c name ikey k, ¬ Files s.indexes c name ikey k := by
    intro c name ikey k hfiles
    obtain ⟨r, d, hr, -⟩ := s.sound c name ikey k hfiles
    have hnone := hrecords c k
    rw [InMemoryState.recordAt, hr] at hnone
    cases hnone
  refine ⟨fun c name d _ ikey k => iff_of_false (hfiles c name ikey k) ?_, htidy,
    fun c name _ _ _ ikey k _ hk => absurd hk (hfiles c name ikey k)⟩
  rintro ⟨r, hr, -⟩
  rw [hrecords] at hr
  cases hr

/-- Without indexes, any records are consistent. -/
theorem indexConsistent_of_no_indexes {s : State δ}
    (h : ∀ c name, OrderedMap.find₂ s.indexes c name = none) : IndexConsistent s := by
  refine ⟨fun c name d hd => ?_, fun c name index hindex => ?_, fun c name d hd => ?_⟩
  · rw [descriptorOf, h] at hd
    cases hd
  · rw [h] at hindex
    cases hindex
  · rw [descriptorOf, h] at hd
    cases hd

/-! ## A populated collection -/

/-- A collection without indexes. -/
def plainUsers : CollectionDescriptor := { name := ascii "users" }

/-- Its upgrade: one more index, not unique. -/
def indexedUsers : CollectionDescriptor :=
  { name := ascii "users", schemaVersion := 2
    indexes := [{ name := ascii "by_city", fields := [ascii "city"] }] }

/-- A document both descriptors enlist. -/
def roman : Json Empty := .object [(ascii "city", .string (ascii "Rome"))]

/-- A backend with the indexed collection, empty. -/
def indexedState : State Empty := register [indexedUsers] InMemoryState.empty

/-- A transaction that puts a user. -/
def putRoman (s : State Empty) : Tx Empty :=
  (put .first s InMemoryTransaction.begin (ascii "users") (ascii "u1") roman).2

/-- The plain collection with one user in it, as `ensure_collection` and one transaction leave
    it. -/
def populated : State Empty :=
  (Interleaving.run store (Interleaving.World.init InMemoryState.empty)
    [.admin [plainUsers], .begin (), .op 0 (.put (ascii "users") (ascii "u1") roman),
      .commit 0 ()]).shared

theorem indexConsistent_indexedState : IndexConsistent indexedState := by
  have hindexes : indexedState.indexes =
      (∅ : Indexes InMemoryIndexKey).insert (ascii "users") (emptyIndexStates indexedUsers) := rfl
  refine indexConsistent_of_no_records (fun c k => ?_) fun c name index hindex => ?_
  · show OrderedMap.find₂ (∅ : Records Empty) c k = none
    exact OrderedMap.find₂_empty c k
  · rw [hindexes, OrderedMap.find₂, OrderedMap.find_insert] at hindex
    by_cases hc : c = ascii "users"
    · rw [if_pos hc, Option.bind_some, find_emptyIndexStates] at hindex
      obtain ⟨_, -, rfl⟩ := Option.map_eq_some_iff.mp hindex
      exact Multimap.tidy_empty
    · rw [if_neg hc] at hindex
      simp at hindex

theorem no_indexes_populated (c : CollectionName) (name : Bytes) :
    OrderedMap.find₂ populated.indexes c name = none := by
  have hindexes : populated.indexes =
      (∅ : Indexes InMemoryIndexKey).insert (ascii "users") ∅ := rfl
  rw [hindexes, OrderedMap.find₂, OrderedMap.find_insert]
  by_cases hc : c = ascii "users"
  · rw [if_pos hc]
    simp
  · rw [if_neg hc]
    simp

/-! ## Commit -/

/-- The state a commit publishes is consistent. -/
theorem indexConsistent_committed {s : State δ} {t : Tx δ} (hs : IndexConsistent s)
    {order : List Nat} {indexes : Indexes InMemoryIndexKey}
    (hst : stageIndexes order s t = .ok indexes) : IndexConsistent (t.committed s hst) := by
  have hstaging := staging hst
  refine ⟨fun c name d hd ikey k => ?_, hstaging.tidy hs.tidy, hstaging.unique hs.unique⟩
  have hd' : descriptorOf s.indexes c name = some d := (hstaging.descriptors c name).symm.trans hd
  rcases recordAt_committed t s hst c k with ⟨r, hput, hr⟩ | ⟨he, hr⟩ | ⟨hno, hne, hr⟩ <;> rw [hr]
  · -- a staged record: it is filed where its own document belongs
    refine (hstaging.put c k r hput name ikey).trans ⟨?_, ?_⟩
    · rintro ⟨d', hd'', hkey⟩
      obtain rfl := Option.some_inj.mp (hd'.symm.trans hd'')
      exact ⟨_, rfl, hkey⟩
    · rintro ⟨r', heq, hkey⟩
      obtain rfl := Option.some_inj.mp heq
      exact ⟨d, hd', hkey⟩
  · -- an erased record: nothing is filed for its place
    refine iff_of_false (hstaging.erased c k he name ikey) ?_
    rintro ⟨r, heq, -⟩
    cases heq
  · -- any other place is as it was
    exact (hstaging.untouched c k hno hne name ikey).trans (hs.image c name d hd' ikey k)

/-- **A successful commit keeps the indexes consistent.** -/
theorem commit_keeps_consistency {s : State δ} {t : Tx δ} {r : State δ × Tx δ}
    (hs : IndexConsistent s) (h : commit s t = .ok r) : IndexConsistent r.1 := by
  obtain ⟨-, -, indexes, hst, rfl⟩ := commit_ok (commit_ok_iff.mp h)
  exact indexConsistent_committed hs hst

/-- A user is put under a registered index. -/
theorem commit_keeps_consistency_indexed :
    ∃ r, commit indexedState (putRoman indexedState) = .ok r ∧ IndexConsistent r.1 := by
  have hok : (commit indexedState (putRoman indexedState)).isOk = true := by decide
  cases h : commit indexedState (putRoman indexedState) with
  | error e =>
    rw [h] at hok
    cases hok
  | ok r => exact ⟨r, rfl, commit_keeps_consistency indexConsistent_indexedState h⟩

/-! ## Registration -/

/-- Every index that the current descriptor of collection `c` declares exists, as declared. -/
def Covers (s : State δ) (c : CollectionName) : Prop :=
  ∀ descriptor, s.collections[c]? = some descriptor → ∀ index ∈ descriptor.indexes,
    descriptorOf s.indexes c index.name = some index

/-- The descriptor a batch leaves for a collection: the last one of that name. -/
def publishedDescriptor (descriptors : List CollectionDescriptor) (c : CollectionName) :
    Option CollectionDescriptor :=
  descriptors.foldl (fun found d => if d.name = c then some d else found) none

/-- The last of the descriptors that satisfy a test, as the loop above finds it. -/
theorem publishedDescriptor_append (done : List CollectionDescriptor) (d : CollectionDescriptor)
    (c : CollectionName) :
    publishedDescriptor (done ++ [d]) c =
      if d.name = c then some d else publishedDescriptor done c := by
  rw [publishedDescriptor, List.foldl_append]
  rfl

/-- The batch publishes a descriptor for exactly the collections it names. -/
theorem publishedDescriptor_isSome {descriptors : List CollectionDescriptor} {c : CollectionName} :
    (∃ d, publishedDescriptor descriptors c = some d) ↔ ∃ d ∈ descriptors, d.name = c := by
  rw [publishedDescriptor]
  refine foldl_invariant (fun (done : List CollectionDescriptor)
    (found : Option CollectionDescriptor) => (∃ d, found = some d) ↔ ∃ d ∈ done, d.name = c)
    (by simp) ?_
  intro done d rest found _ hdone
  by_cases hname : d.name = c
  · simp [hname]
  · rw [if_neg hname, hdone]
    simp [hname]

/-- **What a batch publishes as descriptors**: its last one of each name. -/
theorem collections_registered {s : State δ} {descriptors : List CollectionDescriptor}
    {staged : OrderedMap CollectionName CollectionDescriptor}
    (h : descriptors.foldlM stageDescriptor s.collections = .ok staged) (c : CollectionName) :
    staged[c]? = (publishedDescriptor descriptors c).or s.collections[c]? := by
  refine foldlM_invariant (fun done (staged : OrderedMap CollectionName CollectionDescriptor) =>
    staged[c]? = (publishedDescriptor done c).or s.collections[c]?) rfl ?_ h
  intro done d rest mid mid' _ hdone hstep
  obtain ⟨rfl, -⟩ := stageDescriptor_ok hstep
  rw [OrderedMap.find_insert, publishedDescriptor_append]
  by_cases hname : d.name = c
  · rw [if_pos hname.symm, if_pos hname, Option.some_or]
  · rw [if_neg (Ne.symm hname), if_neg hname, hdone]

/-- **What a batch publishes as indexes**: empty ones for the new collections it names. -/
theorem indexes_registered (s : State δ) (descriptors : List CollectionDescriptor)
    (c : CollectionName) :
    (registerIndexes s descriptors)[c]? =
      if c ∈ s.collections then s.indexes[c]?
      else ((publishedDescriptor descriptors c).map emptyIndexStates).or s.indexes[c]? := by
  rw [registerIndexes]
  refine foldl_invariant (fun done (indexes : Indexes InMemoryIndexKey) => indexes[c]? =
    if c ∈ s.collections then s.indexes[c]?
    else ((publishedDescriptor done c).map emptyIndexStates).or s.indexes[c]?)
    (by simp [publishedDescriptor]) ?_
  intro done d rest indexes _ hdone
  rw [publishedDescriptor_append]
  by_cases hmem : d.name ∈ s.collections
  · rw [if_pos hmem, hdone]
    by_cases hname : d.name = c
    · rw [if_pos (hname ▸ hmem), if_pos (hname ▸ hmem)]
    · rw [if_neg hname]
  · rw [if_neg hmem, OrderedMap.find_insert]
    by_cases hname : d.name = c
    · rw [if_pos hname.symm, if_pos hname, if_neg (hname ▸ hmem), Option.map_some, Option.some_or]
    · rw [if_neg (Ne.symm hname), if_neg hname, hdone]

/-- A backend that has seen one registration is consistent. -/
theorem indexConsistent_register_empty (descriptors : List CollectionDescriptor) :
    IndexConsistent (register descriptors (InMemoryState.empty : State δ)) := by
  have hframe := (register_frame (InMemoryState.empty : State δ) descriptors).1
  refine indexConsistent_of_no_records (fun c k => ?_) fun c name index hindex => ?_
  · rw [InMemoryState.recordAt, hframe]
    exact OrderedMap.find₂_empty c k
  · rw [register] at hindex
    cases h : ensureCollections (InMemoryState.empty : State δ) descriptors with
    | error e =>
      rw [h] at hindex
      rw [show OrderedMap.find₂ (InMemoryState.empty : State δ).indexes c name = none from
        OrderedMap.find₂_empty c name] at hindex
      cases hindex
    | ok s' =>
      rw [h] at hindex
      obtain ⟨staged, hst, rfl⟩ := ensureCollections_ok h
      have hc := indexes_registered (InMemoryState.empty : State δ) descriptors c
      cases hpub : publishedDescriptor descriptors c with
      | none =>
        rw [hpub, if_neg (by simp [InMemoryState.empty])] at hc
        rw [OrderedMap.find₂, show (registered _ descriptors hst).indexes[c]? = _ from hc] at hindex
        simp [InMemoryState.empty] at hindex
      | some d =>
        rw [hpub, if_neg (by simp [InMemoryState.empty])] at hc
        rw [OrderedMap.find₂, show (registered _ descriptors hst).indexes[c]? = _ from hc,
          Option.map_some, Option.some_or, Option.bind_some, find_emptyIndexStates] at hindex
        obtain ⟨_, -, rfl⟩ := Option.map_eq_some_iff.mp hindex
        exact Multimap.tidy_empty

/-- The condition under which a registration leaves nothing to build.  For a collection that is
    registered already: it has every index the new descriptor declares.  For a new one: indexes
    declared under one name are the same, and no record that is there belongs in any of them. -/
def RegistrationCovered (s : State δ) (descriptors : List CollectionDescriptor) : Prop :=
  ∀ c descriptor, publishedDescriptor descriptors c = some descriptor →
    if c ∈ s.collections then
      ∀ index ∈ descriptor.indexes, descriptorOf s.indexes c index.name = some index
    else
      ∀ index ∈ descriptor.indexes,
        (∀ index' ∈ descriptor.indexes, index'.name = index.name → index' = index) ∧
        ∀ k r, s.recordAt c k = some r → ∀ ikey : InMemoryIndexKey,
          entryKey r.document index ≠ .ok ikey

/-- The descriptor of an index among the empty ones: the first of its name. -/
theorem descriptorOf_emptyIndexStates {indexes : Indexes InMemoryIndexKey} {c : CollectionName}
    {d : CollectionDescriptor} (h : indexes[c]? = some (emptyIndexStates d)) (name : Bytes) :
    descriptorOf indexes c name = d.indexes.find? fun index => decide (index.name = name) := by
  rw [descriptorOf, OrderedMap.find₂, h, Option.bind_some, find_emptyIndexStates, Option.map_map]
  cases d.indexes.find? fun index => decide (index.name = name) <;> rfl

/-- All indexes of one name are the first of it, when they are all the same. -/
theorem find_index_iff {indexes : List IndexDescriptor} :
    (∀ index ∈ indexes,
      (indexes.find? fun index' => decide (index'.name = index.name)) = some index) ↔
    ∀ index ∈ indexes, ∀ index' ∈ indexes, index'.name = index.name → index' = index := by
  constructor
  · intro h index hindex index' hindex' hname
    have hfirst := h index hindex
    rw [← hname, h index' hindex'] at hfirst
    exact Option.some_inj.mp hfirst
  · intro h index hindex
    cases hfind : indexes.find? fun index' => decide (index'.name = index.name) with
    | none =>
      have hnone := List.find?_eq_none.mp hfind index hindex
      simp at hnone
    | some first =>
      have hname : first.name = index.name := by simpa using List.find?_some hfind
      rw [h index hindex first (List.mem_of_find?_eq_some hfind) hname]

/-- **When a registration leaves consistent indexes that cover what it published**: exactly when it
    had none to build. -/
theorem registration_consistent_iff {s s' : State δ} {descriptors : List CollectionDescriptor}
    (hs : IndexConsistent s)
    (h : ensureCollections s descriptors = .ok s' ∨
      ∃ descriptor, descriptors = [descriptor] ∧ ensureCollection s descriptor = .ok s') :
    (IndexConsistent s' ∧ ∀ d ∈ descriptors, Covers s' d.name) ↔
      RegistrationCovered s descriptors := by
  -- one descriptor is a batch of one
  have h : ensureCollections s descriptors = .ok s' := by
    rcases h with h | ⟨descriptor, rfl, h⟩
    · exact h
    · rw [← ensureCollection_eq, h]
  obtain ⟨staged, hst, rfl⟩ := ensureCollections_ok h
  have hcollections : ∀ c, (registered s descriptors hst).collections[c]? =
      (publishedDescriptor descriptors c).or s.collections[c]? := collections_registered hst
  have hindexes := indexes_registered s descriptors
  -- the two shapes a collection can have after the registration
  have hkept : ∀ c, c ∈ s.collections ∨ publishedDescriptor descriptors c = none →
      (registered s descriptors hst).indexes[c]? = s.indexes[c]? := by
    rintro c (hc | hc)
    · exact (hindexes c).trans (if_pos hc)
    · refine (hindexes c).trans ?_
      rw [hc, Option.map_none, Option.none_or, ite_self]
  have hnew : ∀ c d, c ∉ s.collections → publishedDescriptor descriptors c = some d →
      (registered s descriptors hst).indexes[c]? = some (emptyIndexStates d) := by
    intro c d hc hd
    refine (hindexes c).trans ?_
    rw [if_neg hc, hd, Option.map_some, Option.some_or]
  constructor
  · rintro ⟨hcons, hcovers⟩ c descriptor hpub
    have hdeclared : ∀ index ∈ descriptor.indexes,
        descriptorOf (registered s descriptors hst).indexes c index.name = some index := by
      obtain ⟨d, hd, hname⟩ := publishedDescriptor_isSome.mp ⟨descriptor, hpub⟩
      refine hname ▸ hcovers d hd descriptor ?_
      rw [hcollections, hname, hpub, Option.some_or]
    by_cases hc : c ∈ s.collections
    · rw [if_pos hc]
      intro index hindex
      exact (descriptorOf_congr (hkept c (Or.inl hc)) index.name).symm.trans
        (hdeclared index hindex)
    · rw [if_neg hc]
      have hempty := hnew c descriptor hc hpub
      intro index hindex
      refine ⟨find_index_iff.mp (fun index hindex => ?_) index hindex, ?_⟩
      · exact (descriptorOf_emptyIndexStates hempty index.name).symm.trans (hdeclared index hindex)
      · intro k r hr ikey hkey
        have hfiles := (hcons.image c index.name index (hdeclared index hindex) ikey k).mpr
          ⟨r, hr, hkey⟩
        exact not_files_emptyIndexStates hempty index.name ikey k hfiles
  · intro hcov
    refine ⟨⟨fun c name d hd ikey k => ?_, fun c name index hindex => ?_,
      fun c name d hd hunique ikey k k' hk hk' => ?_⟩, fun d hd => ?_⟩
    · by_cases hc : c ∈ s.collections ∨ publishedDescriptor descriptors c = none
      · rw [descriptorOf_congr (hkept c hc)] at hd
        exact (files_congr (hkept c hc) name ikey k).trans (hs.image c name d hd ikey k)
      · rw [not_or] at hc
        obtain ⟨descriptor, hpub⟩ := Option.ne_none_iff_exists'.mp hc.2
        have hempty := hnew c descriptor hc.1 hpub
        rw [descriptorOf_emptyIndexStates hempty] at hd
        have hcovc := hcov c descriptor hpub
        rw [if_neg hc.1] at hcovc
        refine iff_of_false (not_files_emptyIndexStates hempty name ikey k) ?_
        rintro ⟨r, hr, hkey⟩
        exact (hcovc d (List.mem_of_find?_eq_some hd)).2 k r hr ikey hkey
    · by_cases hc : c ∈ s.collections ∨ publishedDescriptor descriptors c = none
      · refine hs.tidy c name index ?_
        rw [OrderedMap.find₂, hkept c hc] at hindex
        exact hindex
      · rw [not_or] at hc
        obtain ⟨descriptor, hpub⟩ := Option.ne_none_iff_exists'.mp hc.2
        rw [OrderedMap.find₂, hnew c descriptor hc.1 hpub, Option.bind_some,
          find_emptyIndexStates] at hindex
        obtain ⟨_, -, rfl⟩ := Option.map_eq_some_iff.mp hindex
        exact Multimap.tidy_empty
    · by_cases hc : c ∈ s.collections ∨ publishedDescriptor descriptors c = none
      · rw [descriptorOf_congr (hkept c hc)] at hd
        exact hs.unique c name d hd hunique ikey k k' ((files_congr (hkept c hc) name ikey k).mp hk)
          ((files_congr (hkept c hc) name ikey k').mp hk')
      · rw [not_or] at hc
        obtain ⟨descriptor, hpub⟩ := Option.ne_none_iff_exists'.mp hc.2
        exact absurd hk (not_files_emptyIndexStates (hnew c descriptor hc.1 hpub) name ikey k)
    · obtain ⟨descriptor, hpub⟩ := publishedDescriptor_isSome.mpr ⟨d, hd, rfl⟩
      have hcovd := hcov d.name descriptor hpub
      intro descriptor' hdescriptor' index hindex
      rw [hcollections, hpub, Option.some_or, Option.some_inj] at hdescriptor'
      subst hdescriptor'
      by_cases hc : d.name ∈ s.collections
      · rw [if_pos hc] at hcovd
        exact (descriptorOf_congr (hkept d.name (Or.inl hc)) index.name).trans (hcovd index hindex)
      · rw [if_neg hc] at hcovd
        refine (descriptorOf_emptyIndexStates (hnew d.name descriptor hc hpub) index.name).trans ?_
        exact find_index_iff.mpr (fun i hi => (hcovd i hi).1) index hindex

/-- The registration of the indexed collection in an empty backend has nothing to build. -/
theorem registration_consistent_empty :
    (IndexConsistent indexedState ∧ ∀ d ∈ [indexedUsers], Covers indexedState d.name) ↔
      RegistrationCovered (InMemoryState.empty : State Empty) [indexedUsers] :=
  registration_consistent_iff
    (indexConsistent_of_no_indexes fun c name => OrderedMap.find₂_empty c name) (Or.inl rfl)

theorem covers_populated (c : CollectionName) : Covers populated c := by
  have hcollections : populated.collections =
      (∅ : OrderedMap CollectionName CollectionDescriptor).insert (ascii "users") plainUsers := rfl
  intro descriptor hd index hindex
  rw [hcollections, OrderedMap.find_insert] at hd
  by_cases hc : c = ascii "users"
  · rw [if_pos hc, Option.some_inj] at hd
    rw [← hd] at hindex
    exact absurd hindex List.not_mem_nil
  · rw [if_neg hc] at hd
    simp at hd

/-- **An accepted upgrade does not build the index it adds**: the populated collection is consistent
    and covered, the upgrade with the new index is accepted, and the index does not exist
    afterwards. -/
theorem upgrade_uncovered :
    IndexConsistent populated ∧ (∀ c, Covers populated c) ∧
      ensureCollections populated [indexedUsers] = .ok (register [indexedUsers] populated) ∧
      ¬ (IndexConsistent (register [indexedUsers] populated) ∧
        ∀ d ∈ [indexedUsers], Covers (register [indexedUsers] populated) d.name) := by
  refine ⟨indexConsistent_of_no_indexes no_indexes_populated, covers_populated, rfl, ?_⟩
  rintro ⟨-, hcovers⟩
  have hdeclared := hcovers indexedUsers (by simp) indexedUsers rfl
    { name := ascii "by_city", fields := [ascii "city"] } (by simp [indexedUsers])
  have hmissing : descriptorOf (register [indexedUsers] populated).indexes indexedUsers.name
      (ascii "by_city") = none := rfl
  rw [hmissing] at hdeclared
  cases hdeclared

-- the user is there for a scan, and not there for a query through the new index
example : ((query (register [indexedUsers] populated) InMemoryTransaction.begin (ascii "users")
    .all).1.toOption.map List.length, (query (register [indexedUsers] populated)
    InMemoryTransaction.begin (ascii "users") (.indexEquals (ascii "by_city")
    [.stringValue (ascii "Rome")])).1.toOption.map List.length) = (some 1, some 0) := by decide

end StateSpec.Cpp
