/-
  BINDINGS THAT QUERY BY KEY — what `transaction.rs`, `transaction.go.tmpl` and
  `InMemoryTransaction.java` share and the C++ binding does not.

  Their `query` collects records in a map from keys: first the committed ones, then the staged ones
  over them, then the erased keys go; what the query accepts of the rest is the answer.  Every read
  of theirs REPLACES the version observed before (`ReadPolicy.latest`), and the version of a staged
  record is 0.

  A `Binding` is what distinguishes the three:
  * `selector`      — how it reads a query;
  * `excludeStaged` — whether a scan leaves staged records out of the committed ones (Go);
  * `erasedKey`     — which key of a collection a version key erases: by its prefix (Rust, Java) or
                      by parsing it (Go);
  * `order`         — the order in which a commit visits the staged records, as far as the run-time
                      system chooses it (Go and Java visit hash maps);
  * `raise`         — how it reports a fault.

  `mem_queryRecords` says which records a query answers; `Reads` says which committed records an
  operation reads.  The order in which Go and Java visit the indexes of one collection can decide
  which of several faults is reported, never whether one is; it is the order of their names here.
-/
import StateSpec.Lib.Interleaving
import StateSpec.Memory.Validation

set_option linter.unusedSectionVars false

namespace StateSpec.Memory

variable {δ : Type} [Decimal δ]
variable {κ : Type} [Ord κ] [Std.TransOrd κ] [Std.LawfulEqOrd κ] [DecidableEq κ] [EntryKey κ]

open InMemoryTransaction Interleaving

/-- What a binding that queries by key has of its own. -/
structure Binding (δ Q κ γ ε : Type) where
  raise : Fault → ε
  selector : Q → Selector δ κ
  excludeStaged : Bool
  erasedKey : CollectionName → Bytes → Option Key
  order : γ → List Nat
  erasedKey_sound : ∀ {c vk k}, erasedKey c vk = some k → vk = recordVersionKey c k

namespace Binding

variable {Q γ ε : Type} (B : Binding δ Q κ γ ε)

/-! ## Queries -/

/-- The committed records a query starts from. -/
def committedRecords (s : InMemoryState δ κ) (t : InMemoryTransaction δ)
    (collection : CollectionName) (q : Selector δ κ) : List (VersionedRecord δ) :=
  if q.isIndex then committedIndexRecords s collection q
  else
    match s.records[collection]? with
    | none => []
    | some records =>
      (records.toList.map Prod.snd).filter fun r =>
        !(B.excludeStaged && decide (versionKeyOf r ∈ t.puts))

/-- The staged records a query lays over the committed ones.  An index query looks at the staged
    records of ALL collections, and fails if one of them has no index key. -/
def stagedPart (s : InMemoryState δ κ) (t : InMemoryTransaction δ) (collection : CollectionName)
    (q : Selector δ κ) : Except Fault (List (VersionedRecord δ)) :=
  filterE (fun record =>
    (if q.isIndex then stagedMatches s q record else .ok true).map fun found =>
      decide (record.collection = collection) && found) t.stagedRecords

/-- The records a query answers. -/
def queryRecords (s : InMemoryState δ κ) (t : InMemoryTransaction δ) (collection : CollectionName)
    (q : Selector δ κ) : Except Fault (List (VersionedRecord δ)) :=
  match stagedPart s t collection q with
  | .error fault => .error fault
  | .ok staged =>
    let byKey := OrderedMap.insertAll VersionedRecord.key
      (B.committedRecords s t collection q ++ staged)
    let byKey := OrderedMap.eraseAll byKey (t.erases.toList.filterMap (B.erasedKey collection))
    .ok ((byKey.toList.map Prod.snd).filter q.matchesRecord)

/-- `query`. -/
def query (s : InMemoryState δ κ) (t : InMemoryTransaction δ) (collection : CollectionName)
    (query : Q) : Except ε (List (VersionedRecord δ)) × InMemoryTransaction δ :=
  if t.isOpen = false then (.error (B.raise .closed), t)
  else
    match B.queryRecords s t collection (B.selector query) with
    | .error fault => (.error (B.raise fault), t)
    | .ok matched => (.ok matched, t.recordReads .latest matched)

/-- No staged record makes the query fail. -/
def Answerable (s : InMemoryState δ κ) (t : InMemoryTransaction δ) (q : Selector δ κ) : Prop :=
  q.isIndex = true → ∀ r ∈ t.stagedRecords, ∃ found, stagedMatches s q r = .ok found

/-- A committed record a query answers: found, accepted, under no staged record that is found, and
    not erased. -/
structure CommittedAnswer (s : InMemoryState δ κ) (t : InMemoryTransaction δ) (c : CollectionName)
    (q : Selector δ κ) (r : VersionedRecord δ) : Prop where
  committed : s.recordAt c r.key = some r
  found : q.isIndex = true → FindsByIndex s c q r.key
  kept : q.isIndex = false → B.excludeStaged = true → versionKeyOf r ∉ t.puts
  uncovered : ∀ r', StagedHere s t c q r' → r'.key ≠ r.key
  unerased : ∀ vk ∈ t.erases, B.erasedKey c vk ≠ some r.key
  matched : q.matchesRecord r = true

theorem mem_committedRecords {s : InMemoryState δ κ} {t : InMemoryTransaction δ}
    {c : CollectionName} {q : Selector δ κ} (r : VersionedRecord δ) :
    r ∈ B.committedRecords s t c q ↔ s.recordAt c r.key = some r ∧
      (q.isIndex = true → FindsByIndex s c q r.key) ∧
      (q.isIndex = false → B.excludeStaged = true → versionKeyOf r ∉ t.puts) := by
  rw [committedRecords]
  cases hindex : q.isIndex with
  | true =>
    rw [if_pos rfl, mem_committedIndex]
    constructor
    · rintro ⟨k, hfinds, hr⟩
      rw [← (InMemoryState.recordAt_keyed hr).2] at hfinds hr
      exact ⟨hr, fun _ => hfinds, fun h => by cases h⟩
    · rintro ⟨hr, hfinds, -⟩
      exact ⟨r.key, hfinds rfl, hr⟩
  | false =>
    rw [if_neg (by simp)]
    cases hrecords : s.records[c]? with
    | none => simp [InMemoryState.recordAt, OrderedMap.find₂, hrecords]
    | some records =>
      simp only [List.mem_filter, InMemoryState.mem_collection hrecords]
      refine and_congr_right fun _ => ?_
      cases B.excludeStaged <;> simp

theorem stagedPart_ok {s : InMemoryState δ κ} {t : InMemoryTransaction δ} {c : CollectionName}
    {q : Selector δ κ} : (∃ staged, stagedPart s t c q = .ok staged) ↔ Answerable s t q := by
  constructor
  · rintro ⟨staged, h⟩ hindex r hr
    cases hfound : stagedMatches s q r with
    | ok found => exact ⟨found, rfl⟩
    | error fault =>
      -- the loop cannot have got past this record
      exact absurd h (filterE_ne_ok hr (by rw [if_pos hindex, hfound]; rfl))
  · intro h
    refine filterE_total fun r hr => ?_
    by_cases hindex : q.isIndex = true
    · obtain ⟨found, hfound⟩ := h hindex r hr
      exact ⟨_, by rw [if_pos hindex, hfound]; rfl⟩
    · exact ⟨_, by rw [if_neg hindex]; rfl⟩

theorem stagedPart_error {s : InMemoryState δ κ} {t : InMemoryTransaction δ} {c : CollectionName}
    {q : Selector δ κ} {fault : Fault} (h : stagedPart s t c q = .error fault) :
    fault = .nonScalar := by
  obtain ⟨r, -, hr⟩ := filterE_error h
  by_cases hindex : q.isIndex = true
  · rw [if_pos hindex] at hr
    cases hfound : stagedMatches s q r with
    | ok found => simp [hfound, Except.map] at hr
    | error fault' =>
      simp only [hfound, Except.map, Except.error.injEq] at hr
      exact hr ▸ stagedMatches_error hfound
  · rw [if_neg hindex] at hr
    cases hr

theorem mem_stagedPart {s : InMemoryState δ κ} {t : InMemoryTransaction δ} {c : CollectionName}
    {q : Selector δ κ} {staged : List (VersionedRecord δ)} (h : stagedPart s t c q = .ok staged)
    (r : VersionedRecord δ) : r ∈ staged ↔ StagedHere s t c q r := by
  rw [mem_filterE h, StagedHere]
  refine and_congr_right fun _ => ?_
  by_cases hindex : q.isIndex = true
  · rw [if_pos hindex]
    cases hfound : stagedMatches s q r with
    | error fault => simp [Except.map, hindex]
    | ok found => simp [Except.map, hindex]
  · simp [Except.map, hindex]

/-- Two staged records of one collection have different keys. -/
theorem staged_unique {t : InMemoryTransaction δ} {r r' : VersionedRecord δ}
    (hr : r ∈ t.stagedRecords) (hr' : r' ∈ t.stagedRecords) (hc : r.collection = r'.collection)
    (hk : r.key = r'.key) : r = r' := by
  have h := mem_stagedRecords.mp hr
  have h' := mem_stagedRecords.mp hr'
  rw [versionKeyOf, hc, hk] at h
  exact Option.some_inj.mp (h.symm.trans h')

/-- What the map of keys holds: the staged record if there is one, else the committed one. -/
theorem find_byKey {s : InMemoryState δ κ} {t : InMemoryTransaction δ} {c : CollectionName}
    {q : Selector δ κ} {staged : List (VersionedRecord δ)} (h : stagedPart s t c q = .ok staged)
    (k : Key) (r : VersionedRecord δ) :
    (OrderedMap.insertAll VersionedRecord.key (B.committedRecords s t c q ++ staged))[k]? = some r ↔
      r.key = k ∧
        (r ∈ staged ∨ (r ∈ B.committedRecords s t c q ∧ ∀ r' ∈ staged, r'.key ≠ k)) := by
  rw [OrderedMap.find_insertAll, List.reverse_append, List.find?_append, Option.or_eq_some_iff,
    find?_eq_some_of_unique, find?_eq_some_of_unique, List.find?_eq_none]
  · simp only [List.mem_reverse, decide_eq_true_eq]
    constructor
    · rintro (⟨hst, rfl⟩ | ⟨hnone, hcm, rfl⟩)
      · exact ⟨rfl, Or.inl hst⟩
      · exact ⟨rfl, Or.inr ⟨hcm, fun r' hr' heq => hnone r' hr' heq.symm⟩⟩
    · rintro ⟨rfl, hst | ⟨hcm, hnone⟩⟩
      · exact Or.inl ⟨hst, rfl⟩
      · exact Or.inr ⟨fun r' hr' heq => hnone r' hr' heq.symm, hcm, rfl⟩
  · intro a ha b hb hka hkb
    have ha' := ((B.mem_committedRecords a).mp (List.mem_reverse.mp ha)).1
    have hb' := ((B.mem_committedRecords b).mp (List.mem_reverse.mp hb)).1
    rw [← of_decide_eq_true hka] at ha'
    rw [← of_decide_eq_true hkb] at hb'
    exact Option.some_inj.mp (ha'.symm.trans hb')
  · intro a ha b hb hka hkb
    have ha' := (mem_stagedPart h a).mp (List.mem_reverse.mp ha)
    have hb' := (mem_stagedPart h b).mp (List.mem_reverse.mp hb)
    exact staged_unique ha'.1 hb'.1 (ha'.2.1.trans hb'.2.1.symm)
      ((of_decide_eq_true hka).symm.trans (of_decide_eq_true hkb))

/-- A staged record is not erased. -/
theorem staged_unerased {s : InMemoryState δ κ} {t : InMemoryTransaction δ} {c : CollectionName}
    {q : Selector δ κ} {r : VersionedRecord δ} (h : StagedHere s t c q r) {vk : Bytes}
    (hvk : vk ∈ t.erases) : B.erasedKey c vk ≠ some r.key := by
  obtain ⟨hr, rfl, -⟩ := h
  intro heq
  have hput := mem_stagedRecords.mp hr
  rw [versionKeyOf, ← B.erasedKey_sound heq, t.disjoint vk hvk] at hput
  cases hput

/-- **The records a query answers**, committed and staged. -/
theorem mem_queryRecords {s : InMemoryState δ κ} {t : InMemoryTransaction δ} {c : CollectionName}
    {q : Selector δ κ} {records : List (VersionedRecord δ)}
    (h : B.queryRecords s t c q = .ok records) (r : VersionedRecord δ) :
    r ∈ records ↔ B.CommittedAnswer s t c q r ∨
      StagedAnswer s t c q r := by
  rw [queryRecords] at h
  cases hstaged : stagedPart s t c q with
  | error fault => simp [hstaged] at h
  | ok staged =>
    simp only [hstaged, Except.ok.injEq] at h
    subst h
    have hmem := mem_stagedPart hstaged
    have hcommitted := B.mem_committedRecords (s := s) (t := t) (c := c) (q := q)
    have hat := B.find_byKey hstaged
    have hleft : ∀ k, k ∈ t.erases.toList.filterMap (B.erasedKey c) ↔
        ∃ vk ∈ t.erases, B.erasedKey c vk = some k := fun k => by
      simp only [List.mem_filterMap, Std.ExtTreeSet.mem_toList]
    rw [List.mem_filter, List.mem_map]
    constructor
    · rintro ⟨⟨⟨k, r'⟩, hin, heq⟩, hmatch⟩
      obtain rfl : r' = r := heq
      rw [Std.ExtTreeMap.mem_toList_iff_getElem?_eq_some, OrderedMap.find_eraseAll] at hin
      by_cases hk : k ∈ t.erases.toList.filterMap (B.erasedKey c)
      · rw [if_pos hk] at hin
        cases hin
      · rw [if_neg hk, hat] at hin
        obtain ⟨rfl, hst | ⟨hcm, hnone⟩⟩ := hin
        · exact Or.inr ⟨(hmem _).mp hst, hmatch⟩
        · obtain ⟨hr, hfound, hkept⟩ := (hcommitted _).mp hcm
          exact Or.inl ⟨hr, hfound, hkept, fun r'' hr'' => hnone r'' ((hmem r'').mpr hr''),
            fun vk hvk heq => hk ((hleft _).mpr ⟨vk, hvk, heq⟩), hmatch⟩
    · intro hanswer
      have hmatch : q.matchesRecord r = true := hanswer.elim (·.matched) And.right
      have hunerased : ∀ vk ∈ t.erases, B.erasedKey c vk ≠ some r.key :=
        hanswer.elim (·.unerased) fun hst _ => B.staged_unerased hst.1
      refine ⟨⟨(r.key, r), ?_, rfl⟩, hmatch⟩
      rw [Std.ExtTreeMap.mem_toList_iff_getElem?_eq_some, OrderedMap.find_eraseAll, if_neg, hat]
      · refine ⟨rfl, ?_⟩
        rcases hanswer with hcm | hst
        · exact Or.inr ⟨(hcommitted r).mpr ⟨hcm.committed, hcm.found, hcm.kept⟩,
            fun r' hr' => hcm.uncovered r' ((hmem r').mp hr')⟩
        · exact Or.inl ((hmem r).mpr hst.1)
      · rw [hleft]
        rintro ⟨vk, hvk, heq⟩
        exact hunerased vk hvk heq

theorem queryRecords_ok {s : InMemoryState δ κ} {t : InMemoryTransaction δ} {c : CollectionName}
    {q : Selector δ κ} : (∃ records, B.queryRecords s t c q = .ok records) ↔ Answerable s t q := by
  rw [← stagedPart_ok (c := c)]
  cases h : stagedPart s t c q <;> simp [queryRecords, h]

/-- Everything `query` can do: it refuses, or it reads what it answers. -/
theorem query_cases (s : InMemoryState δ κ) (t : InMemoryTransaction δ) (c : CollectionName)
    (q : Q) :
    (∃ fault, B.query s t c q = (.error fault, t)) ∨
    (t.isOpen = true ∧ ∃ records, B.queryRecords s t c (B.selector q) = .ok records ∧
      B.query s t c q = (.ok records, t.recordReads .latest records)) := by
  rw [query]
  by_cases hopen : t.isOpen = false
  · exact Or.inl ⟨_, by rw [if_pos hopen]⟩
  · rw [if_neg hopen]
    cases hrecords : B.queryRecords s t c (B.selector q) with
    | error fault => exact Or.inl ⟨B.raise fault, rfl⟩
    | ok records => exact Or.inr ⟨by simpa using hopen, records, rfl, rfl⟩

/-- What a query answers has a version that is not ahead of its counter. -/
theorem version_le_of_mem_query {s : InMemoryState δ κ} {t : InMemoryTransaction δ}
    {c : CollectionName} {q : Selector δ κ} {records : List (VersionedRecord δ)}
    (h : B.queryRecords s t c q = .ok records) {r : VersionedRecord δ} (hr : r ∈ records) :
    r.version ≤ s.counter (versionKeyOf r) := by
  rcases (B.mem_queryRecords h r).mp hr with hanswer | ⟨⟨hstaged, -⟩, -⟩
  · rw [versionKeyOf, (InMemoryState.recordAt_keyed hanswer.committed).1]
    exact (s.counted c r.key r hanswer.committed).2
  · rw [(t.staged _ _ (mem_stagedRecords.mp hstaged)).2]
    exact Nat.zero_le _

/-! ## The binding as a store -/

/-- `commit`. -/
def commit (g : γ) (s : InMemoryState δ κ) (t : InMemoryTransaction δ) :
    Except ε (InMemoryState δ κ × InMemoryTransaction δ) :=
  (InMemoryTransaction.commit (B.order g) s t).mapError B.raise

theorem commit_ok_iff {g : γ} {s : InMemoryState δ κ} {t : InMemoryTransaction δ}
    {r : InMemoryState δ κ × InMemoryTransaction δ} :
    B.commit g s t = .ok r ↔ InMemoryTransaction.commit (B.order g) s t = .ok r := by
  rw [commit, mapError_eq_ok]

/-- One call on a transaction. -/
def exec (o : Operation δ Q) (s : InMemoryState δ κ) (t : InMemoryTransaction δ) :
    Except ε (Answer δ) × InMemoryTransaction δ :=
  Memory.exec .latest B.raise B.query o s t

/-- The binding as a store: transactions over collections that have been registered. -/
abbrev txStore : Store Unit (InMemoryState δ κ) (InMemoryTransaction δ) (Operation δ Q)
    (Except ε (Answer δ)) γ ε Empty where
  begin _ := InMemoryTransaction.begin
  exec := B.exec
  commit := B.commit
  abort := InMemoryTransaction.abort
  admin a := a.elim

/-! ## What an operation reads -/

/-- The operation reads the committed record, or the absence of one, at a place. -/
def Reads (s : InMemoryState δ κ) (t : InMemoryTransaction δ) (o : Operation δ Q)
    (c : CollectionName) (k : Key) : Prop :=
  match o with
  | .get c' k' | .put c' k' _ | .erase c' k' =>
    c' = c ∧ k' = k ∧ ¬ t.Overlays (recordVersionKey c k)
  | .query c' q =>
    c' = c ∧ Answerable s t (B.selector q) ∧ ∃ r, B.CommittedAnswer s t c (B.selector q) r ∧ r.key = k

section

variable (o : Operation δ Q) (s : InMemoryState δ κ) (t : InMemoryTransaction δ)

theorem isOpen_exec : (B.exec o s t).2.isOpen = t.isOpen := by
  cases o with
  | get c k => exact (get_frame .latest s t c k).1
  | query c q =>
    show (B.query s t c q).2.isOpen = t.isOpen
    rcases B.query_cases s t c q with ⟨_, h⟩ | ⟨_, _, _, h⟩ <;> rw [h]
    exact (t.recordReads_frame .latest _).1
  | put c k document => exact isOpen_put .latest s t c k document
  | erase c k => exact isOpen_erase .latest s t c k

theorem good_exec (hgood : Good s t) : Good s (B.exec o s t).2 := by
  cases o with
  | get c k => exact good_get hgood c k
  | query c q =>
    show Good s (B.query s t c q).2
    rcases B.query_cases s t c q with ⟨_, h⟩ | ⟨_, records, hrecords, h⟩ <;> rw [h]
    · exact hgood
    · exact good_recordReads hgood fun r hr => B.version_le_of_mem_query hrecords hr
  | put c k document =>
    exact (good_congr (readVersions_put .latest s t c k document)).mpr (good_get hgood c k)
  | erase c k => exact (good_congr (readVersions_erase .latest s t c k)).mpr (good_get hgood c k)

variable {o s t}

/-- What is read is in the read set. -/
theorem mem_readVersions_exec (hopen : t.isOpen = true) {c : CollectionName} {k : Key}
    (h : B.Reads s t o c k) : recordVersionKey c k ∈ (B.exec o s t).2.readVersions := by
  cases o with
  | get c' k' =>
    obtain ⟨rfl, rfl, -⟩ := h
    exact mem_readVersions_get .latest s hopen c' k'
  | query c' q =>
    obtain ⟨rfl, hans, r, hr, rfl⟩ := h
    obtain ⟨records, hrecords⟩ := B.queryRecords_ok.mpr hans
    have hquery : B.query s t c' q = (.ok records, t.recordReads .latest records) := by
      rw [query, if_neg (by simp [hopen]), hrecords]
    show recordVersionKey c' r.key ∈ (B.query s t c' q).2.readVersions
    rw [hquery, ← (InMemoryState.recordAt_keyed hr.committed).1]
    exact mem_recordReads .latest t ((B.mem_queryRecords hrecords r).mpr (Or.inl hr))
  | put c' k' document =>
    obtain ⟨rfl, rfl, -⟩ := h
    show _ ∈ (put .latest s t c' k' document).2.readVersions
    rw [readVersions_put]
    exact mem_readVersions_get .latest s hopen c' k'
  | erase c' k' =>
    obtain ⟨rfl, rfl, -⟩ := h
    show _ ∈ (erase .latest s t c' k').2.readVersions
    rw [readVersions_erase]
    exact mem_readVersions_get .latest s hopen c' k'

/-- What `get` does to an observation: nothing, or it reads the place again. -/
theorem observation_latest_get {vk : Bytes} {v : Version} (h : t.observation vk = some v)
    (c : CollectionName) (k : Key) :
    (get .latest s t c k).2.observation vk = some v ∨
    (vk = recordVersionKey c k ∧ ¬ t.Overlays vk ∧
      (get .latest s t c k).2.observation vk = some (s.recordVersion c k)) := by
  rcases get_cases .latest s t c k with ⟨_, heq⟩ | ⟨_, _, heq⟩ | ⟨_, hover, heq⟩ <;> rw [heq]
  · exact Or.inl h
  · exact Or.inl h
  · rw [observation_recordRead_latest]
    by_cases hvk : vk = recordVersionKey c k
    · rw [if_pos hvk]
      exact Or.inr ⟨hvk, hvk ▸ hover, rfl⟩
    · rw [if_neg hvk]
      exact Or.inl h

/-- **What an operation does to an observation**: nothing; or the operation reads a committed record
    under that version key again, and its present version is what is observed from now on; or a
    query answers a staged record, whose version is 0. -/
theorem observation_exec {vk : Bytes} {v : Version} (h : t.observation vk = some v) :
    (B.exec o s t).2.observation vk = some v ∨
    (∃ c k, vk = recordVersionKey c k ∧ B.Reads s t o c k ∧
      (B.exec o s t).2.observation vk = some (s.recordVersion c k)) ∨
    (B.exec o s t).2.observation vk = some 0 := by
  have hpoint : ∀ {c k}, (∀ {vk}, vk = recordVersionKey c k → ¬ t.Overlays vk → B.Reads s t o c k) →
      (B.exec o s t).2.readVersions = (get .latest s t c k).2.readVersions →
      (B.exec o s t).2.observation vk = some v ∨
      (∃ c k, vk = recordVersionKey c k ∧ B.Reads s t o c k ∧
        (B.exec o s t).2.observation vk = some (s.recordVersion c k)) ∨
      (B.exec o s t).2.observation vk = some 0 := by
    intro c k hreads hsame
    have hobs : (B.exec o s t).2.observation vk = (get .latest s t c k).2.observation vk := by
      rw [observation, observation, hsame]
    rw [hobs]
    rcases observation_latest_get (s := s) h c k with hold | ⟨hvk, hover, hnew⟩
    · exact Or.inl hold
    · exact Or.inr (Or.inl ⟨c, k, hvk, hreads hvk hover, hnew⟩)
  cases o with
  | get c k => exact hpoint (fun hvk hover => ⟨rfl, rfl, hvk ▸ hover⟩) rfl
  | put c k document =>
    exact hpoint (fun hvk hover => ⟨rfl, rfl, hvk ▸ hover⟩) (readVersions_put .latest s t c k document)
  | erase c k =>
    exact hpoint (fun hvk hover => ⟨rfl, rfl, hvk ▸ hover⟩) (readVersions_erase .latest s t c k)
  | query c q =>
    show (B.query s t c q).2.observation vk = some v ∨ (∃ c' k, vk = recordVersionKey c' k ∧
      B.Reads s t (.query c q) c' k ∧ (B.query s t c q).2.observation vk =
        some (s.recordVersion c' k)) ∨ (B.query s t c q).2.observation vk = some 0
    rcases B.query_cases s t c q with ⟨_, heq⟩ | ⟨hopen, records, hrecords, heq⟩ <;> rw [heq]
    · exact Or.inl h
    obtain ⟨v', hv'⟩ := mem_readVersions.mp
      (mem_recordReads_of_mem .latest records (mem_readVersions.mpr ⟨v, h⟩))
    rcases observation_recordReads hv' with ⟨r, hr, rfl, rfl⟩ | hold
    · rcases (B.mem_queryRecords hrecords r).mp hr with hanswer | ⟨⟨hstaged, -⟩, -⟩
      · obtain ⟨hc, -⟩ := InMemoryState.recordAt_keyed hanswer.committed
        refine Or.inr (Or.inl ⟨c, r.key, by rw [versionKeyOf, hc], ?_, ?_⟩)
        · exact ⟨rfl, B.queryRecords_ok.mp ⟨records, hrecords⟩, r, hanswer, rfl⟩
        · rw [hv', InMemoryState.recordVersion_of_some hanswer.committed]
      · rw [(t.staged _ _ (mem_stagedRecords.mp hstaged)).2] at hv'
        exact Or.inr (Or.inr hv')
    · exact Or.inl (hv'.trans (hold.symm.trans h))

end

end Binding

end StateSpec.Memory
