/-
  QUERIES AND PHANTOMS in the C++ in-memory backend.

  A query records a read of every record it answers, and of nothing else.  So a commit vouches for
  the records a query answered (`query_kept`), but not for those it did not answer: a record that
  another transaction makes match in between — a phantom — goes unnoticed, by an insert
  (`phantom_insert`) as by an update.

  What holds of every committed transaction is `query_holds_at_commit`: at the instant of its
  commit, the query still finds everything it answered, and whatever it finds besides was put by
  another transaction that committed in between.
-/
import StateSpec.Cpp.Serializability

set_option linter.unusedSectionVars false

namespace StateSpec.Cpp

open StateSpec.Memory StateSpec.Memory.InMemoryTransaction Interleaving

variable {δ : Type} [Decimal δ]

/-! ## A query at a later state -/

/-- The descriptors of the indexes stay while transactions run. -/
theorem descriptorOf_run (w : TxWorld δ (Query δ))
    (es : List (TxEvent δ (Query δ) Empty)) (c : CollectionName)
    (name : Bytes) :
    descriptorOf (run txStore w es).shared.indexes c name = descriptorOf w.shared.indexes c name := by
  refine run_invariant txStore (C := fun _ _ => True) (P := fun w' =>
    descriptorOf w'.shared.indexes c name = descriptorOf w.shared.indexes c name)
    (fun w' e _ h => ?_) (runMeets_of_forall _ (fun _ _ => trivial) w es) rfl
  rw [← h]
  rcases step_cases txStore w' e with hw | ⟨_, _, hw⟩ | ⟨_, _, _, _, _, hw⟩ |
    ⟨n, g, slot, r, _, _, hc, hw⟩ | ⟨_, _, _, _, hw⟩ | ⟨a, _⟩
  · rw [hw]
  · rw [hw]
  · rw [hw]
    rfl
  · rw [hw]
    obtain ⟨-, -, indexes, hst, rfl⟩ := commit_ok (commit_ok_iff.mp hc)
    exact (staging hst).descriptors c name
  · rw [hw]
  · exact a.elim

section

variable {s s' : State δ} {t : Tx δ} {c : CollectionName} {q : Selector δ InMemoryIndexKey}
variable (hdesc : ∀ c name, descriptorOf s'.indexes c name = descriptorOf s.indexes c name)

include hdesc

/-- Where the descriptors are the same, a query that went well goes well again. -/
theorem queryRecords_total {records : List (VersionedRecord δ)}
    (h : queryRecords s t c q = .ok records) : ∃ now, queryRecords s' t c q = .ok now := by
  have hstaged : stagedPart s' t c q = stagedPart s t c q := by
    have hfinds : findsStaged s' c q = findsStaged s c q := funext fun record => by
      rw [findsStaged, findsStaged, stagedMatches_congr q record (hdesc record.collection)]
    rw [stagedPart, stagedPart, hfinds]
  obtain ⟨committed, hcommitted⟩ := committedRecords_total s' t c q
  rw [queryRecords] at h ⊢
  rw [hcommitted, hstaged]
  cases hold : committedRecords s t c q with
  | error e => simp [hold] at h
  | ok old =>
    cases hst : stagedPart s t c q with
    | error e => simp [hold, hst] at h
    | ok staged => exact ⟨_, rfl⟩

theorem stagedAnswer_congr (r : VersionedRecord δ) :
    StagedAnswer s' t c q r ↔ StagedAnswer s t c q r := by
  simp only [StagedAnswer, StagedHere, stagedMatches_congr q r (hdesc r.collection)]

end

/-- The place of a record is as it was: the record, and where the indexes file it. -/
structure Untouched (s s' : State δ) (c : CollectionName) (k : Key) : Prop where
  record : s'.recordAt c k = s.recordAt c k
  files : ∀ name ikey, Files s'.indexes c name ikey k ↔ Files s.indexes c name ikey k

theorem Untouched.refl (s : State δ) (c : CollectionName) (k : Key) : Untouched s s c k :=
  ⟨rfl, fun _ _ => Iff.rfl⟩

theorem Untouched.trans {s s' s'' : State δ} {c : CollectionName} {k : Key}
    (h : Untouched s s' c k) (h' : Untouched s' s'' c k) : Untouched s s'' c k :=
  ⟨h'.record.trans h.record, fun name ikey => (h'.files name ikey).trans (h.files name ikey)⟩

/-- An answer from an untouched place is an answer again. -/
theorem committedAnswer_congr {s s' : State δ} {t : Tx δ} {c : CollectionName}
    {q : Selector δ InMemoryIndexKey} {r : VersionedRecord δ} (h : Untouched s s' c r.key) :
    CommittedAnswer s' t c q r ↔ CommittedAnswer s t c q r := by
  simp only [CommittedAnswer, FindsByIndex, h.record, h.files]

/-- **What a run of transactions does to a place**: nothing, or the last to commit a change of it
    left what is there. -/
theorem place_run (w : TxWorld δ (Query δ))
    (es : List (TxEvent δ (Query δ) Empty)) (c : CollectionName) (k : Key) :
    Untouched w.shared (run txStore w es).shared c k ∨
    (run txStore w es).shared.recordAt c k = none ∨
    ∃ entry ∈ commits txStore w es, ∃ staged version, entry.tx.Puts c k staged ∧
      (run txStore w es).shared.recordAt c k = some { staged with version := version } := by
  induction es generalizing w with
  | nil => exact Or.inl (Untouched.refl _ c k)
  | cons e es ih =>
    rw [commits_cons]
    rcases ih (step txStore w e) with hrest | hrest | ⟨entry, hentry, hrest⟩
    · rw [run_cons]
      -- the rest of the run leaves the place alone: what the first step did is what is there
      rcases step_cases txStore w e with hw | ⟨_, _, hw⟩ | ⟨_, _, _, _, _, hw⟩ |
        ⟨n, g, slot, r, rfl, hn, hc, hw⟩ | ⟨_, _, _, _, hw⟩ | ⟨a, _⟩
      · rw [hw] at hrest ⊢
        exact Or.inl hrest
      · rw [hw] at hrest ⊢
        exact Or.inl hrest
      · rw [hw] at hrest ⊢
        exact Or.inl hrest
      · have hshared : (step txStore w (.commit n g)).shared = r.1 := by rw [hw]; rfl
        have hrecord := hrest.record
        rw [hshared] at hrest hrecord
        obtain ⟨-, -, indexes, hst, rfl⟩ := commit_ok (commit_ok_iff.mp hc)
        rcases recordAt_committed slot.tx w.shared hst c k with
          ⟨staged, hput, hr⟩ | ⟨_, hr⟩ | ⟨hno, hne, hr⟩
        · refine Or.inr (Or.inr ⟨⟨n, slot.init, slot.tx, slot.script, g⟩, ?_, staged, _, hput,
            hrecord.trans hr⟩)
          rw [commits_step txStore hn hc]
          exact List.mem_append_left _ (List.mem_singleton.mpr rfl)
        · exact Or.inr (Or.inl (hrecord.trans hr))
        · exact Or.inl (Untouched.trans ⟨hr, (staging hst).untouched c k hno hne⟩ hrest)
      · rw [hw] at hrest ⊢
        exact Or.inl hrest
      · exact a.elim
    · exact Or.inr (Or.inl hrest)
    · exact Or.inr (Or.inr ⟨entry, List.mem_append_right _ hentry, hrest⟩)

/-! ## Queries of committed transactions -/

/-- The records a query answered are still there, and still found, where its reads are valid. -/
theorem query_kept {s s' : State δ} {t : Tx δ} {c : CollectionName}
    {q : Selector δ InMemoryIndexKey} {records : List (VersionedRecord δ)} (hs : Later s s')
    (hgood : Good s t) (h : queryRecords s t c q = .ok records)
    (hvalid : Valid s' (t.recordReads .first records)) {r : VersionedRecord δ} (hr : r ∈ records)
    (hanswer : CommittedAnswer s t c q r) : CommittedAnswer s' t c q r := by
  obtain ⟨hat, hfinds, hover, hmatch⟩ := hanswer
  have hvk : versionKeyOf r = recordVersionKey c r.key := by
    rw [versionKeyOf, (InMemoryState.recordAt_keyed hat).1]
  have hgood' : Good s (t.recordReads .first records) :=
    good_recordReads hgood fun r hr => version_le_of_mem_query h hr
  have hunmoved := unmoved_of_valid hs hgood' hvalid (mem_recordReads .first t hr)
  rw [hvk] at hunmoved
  refine ⟨(hs.record c r.key hunmoved).trans hat, fun hindex => ?_, hover, hmatch⟩
  obtain ⟨name, ikey, hname, hkey, hfiles⟩ := hfinds hindex
  obtain ⟨_, d, _, hd, _⟩ := s.sound c name ikey r.key hfiles
  exact ⟨name, ikey, hname, hkey, (hs.files c name d r.key hd hunmoved ikey).mpr hfiles⟩

/-- **What a commit says about the queries of its transaction.**  In every interleaving: if
    transaction `n` queried and its commit succeeds, then the same query, over the writes it had
    staged when it queried, still finds at the instant of the commit every record it answered; and
    every other record it finds there was put by another transaction that committed after the
    query. -/
theorem query_holds_at_commit {s₀ : State δ}
    {before after : List (TxEvent δ (Query δ) Empty)} {n : Nat}
    {c : CollectionName} {q : Query δ}
    {slot slot' : TxSlot δ (Query δ)}
    {answer : List (VersionedRecord δ)} {r : State δ × Tx δ}
    (hslot : (run txStore (World.init s₀) before).slots[n]? = some slot)
    (hanswer : (query (run txStore (World.init s₀) before).shared slot.tx c q).1 = .ok answer)
    (hslot' : (run txStore (World.init s₀) (before ++ .op n (.query c q) :: after)).slots[n]? =
      some slot')
    (hcommit : commit (run txStore (World.init s₀) (before ++ .op n (.query c q) :: after)).shared
      slot'.tx = .ok r) :
    ∃ now, (query (run txStore (World.init s₀) (before ++ .op n (.query c q) :: after)).shared
        slot.tx c q).1 = .ok now ∧
      (∀ record ∈ answer, record ∈ now) ∧
      ∀ record ∈ now, record ∉ answer →
        ∃ entry ∈ commits txStore (run txStore (World.init s₀) before) (.op n (.query c q) :: after),
          entry.slot ≠ n ∧ ∃ staged, entry.tx.Puts c record.key staged ∧
            staged.document = record.document := by
  rw [run_append] at hslot' hcommit ⊢
  -- name the worlds at the query, right after it, and at the commit
  have hinv := txDiscipline.run_inv (allowed_all (World.init s₀) before)
  generalize hw₁ : run txStore (World.init s₀) before = w₁ at *
  have hdesc := descriptorOf_run w₁ (.op n (.query c q) :: after)
  have hplace := place_run w₁ (.op n (.query c q) :: after) c
  have hlater : Later w₁.shared (run txStore w₁ (.op n (.query c q) :: after)).shared :=
    txDiscipline.run_later w₁ (.op n (.query c q) :: after)
  have hlive' : slot'.tx.isOpen = true := (commit_ok (commit_ok_iff.mp hcommit)).1
  have hother := txDiscipline.slot_ne_of_live hslot hslot' hlive'
  -- the query went well, so it read what it answered
  obtain ⟨hopen, records, hrecords, hquery⟩ :
      slot.tx.isOpen = true ∧ ∃ records, queryRecords w₁.shared slot.tx c (selector q) = .ok records ∧
        query w₁.shared slot.tx c q = (.ok records, slot.tx.recordReads .first records) := by
    rcases query_cases w₁.shared slot.tx c q with ⟨_, h⟩ | h
    · rw [h] at hanswer
      cases hanswer
    · exact h
  rw [hquery] at hanswer
  obtain rfl := Except.ok.inj hanswer
  have hmid : (step txStore w₁ (.op n (.query c q))).slots[n]? =
      some ⟨slot.init, slot.tx.recordReads .first records,
        slot.script ++ [(.query c q, .ok (.records records))]⟩ := by
    have hlt := (List.getElem?_eq_some_iff.mp hslot).1
    simp only [step, hslot, World.executed, List.getElem?_set_self hlt]
    simp only [storeWith, exec, Memory.exec, hquery, Except.map]
  have hgood : Good w₁.shared slot.tx :=
    (hinv.slots slot (List.mem_of_getElem? hslot) hopen).1
  -- what passes validation at the commit would have passed right after the query
  have hvalid : Valid (run txStore w₁ (.op n (.query c q) :: after)).shared
      (slot.tx.recordReads .first records) :=
    (txDiscipline.valid_back (allowed_all _ after)
      (txDiscipline.inv_step w₁ (.op n (.query c q)) (fun _ _ _ => trivial) hinv) hmid hslot' hlive'
      (Later.refl _) (valid_of_commit (commit_ok_iff.mp hcommit))).2
  obtain ⟨now, hnow⟩ := queryRecords_total hdesc hrecords
  refine ⟨now, by rw [query, if_neg (by simp [hopen]), hnow], fun record hrecord => ?_,
    fun record hrecord hnew => ?_⟩
  · refine (mem_query hnow record).mpr ?_
    rcases (mem_query hrecords record).mp hrecord with h | h
    · exact Or.inl (query_kept hlater hgood hrecords hvalid hrecord h)
    · exact Or.inr ((stagedAnswer_congr hdesc record).mpr h)
  · rcases (mem_query hnow record).mp hrecord with h | h
    · rcases hplace record.key with hsame | hnone | ⟨entry, hentry, staged, version, hput, hr⟩
      · exact absurd ((mem_query hrecords record).mpr (Or.inl ((committedAnswer_congr hsame).mp h)))
          hnew
      · rw [h.1] at hnone
        cases hnone
      · refine ⟨entry, hentry, hother entry hentry, staged, hput, ?_⟩
        rw [h.1] at hr
        exact (congrArg VersionedRecord.document (Option.some_inj.mp hr)).symm
    · exact absurd ((mem_query hrecords record).mpr (Or.inr ((stagedAnswer_congr hdesc record).mp h)))
        hnew

/-! ## A phantom -/

/-- Transaction 0 puts the user `u1`; transaction 1 begins. -/
def phantomBefore : List (TxEvent Empty (Query Empty) Empty) :=
  [.begin (), .op 0 (.put (ascii "users") (ascii "u1") .null), .commit 0 (), .begin ()]

/-- Transaction 2 puts the user `u2`. -/
def phantomAfter : List (TxEvent Empty (Query Empty) Empty) :=
  [.begin (), .op 2 (.put (ascii "users") (ascii "u2") .null), .commit 2 ()]

/-- The world in which transaction 1 is about to scan the users. -/
def phantomScan := run txStore (World.init InMemoryState.empty) phantomBefore

/-- The world in which transaction 1 is about to commit. -/
def phantomCommit := run txStore (World.init InMemoryState.empty)
  (phantomBefore ++ .op 1 (.query (ascii "users") .all) :: phantomAfter)

/-- The scan of transaction 1 in an actual run. -/
theorem query_holds_at_commit_phantom :
    ∃ slot ∈ phantomScan.slots, ∃ answer now,
      (query phantomScan.shared slot.tx (ascii "users") .all).1 = .ok answer ∧
      (query phantomCommit.shared slot.tx (ascii "users") .all).1 = .ok now ∧
      ∀ record ∈ answer, record ∈ now := by
  obtain ⟨slot, hslot⟩ : ∃ slot, phantomScan.slots[1]? = some slot := ⟨_, rfl⟩
  obtain ⟨answer, hanswer⟩ : ∃ answer,
      (query phantomScan.shared slot.tx (ascii "users") .all).1 = .ok answer := by
    obtain rfl : _ = slot := Option.some_inj.mp hslot
    exact ⟨_, rfl⟩
  obtain ⟨slot', hslot'⟩ : ∃ slot', phantomCommit.slots[1]? = some slot' := ⟨_, rfl⟩
  obtain ⟨r, hr⟩ : ∃ r, commit phantomCommit.shared slot'.tx = .ok r := by
    obtain rfl : _ = slot' := Option.some_inj.mp hslot'
    exact ⟨_, rfl⟩
  obtain ⟨now, hnow, hkept, -⟩ := query_holds_at_commit hslot hanswer hslot' hr
  exact ⟨slot, List.mem_of_getElem? hslot, answer, now, hanswer, hnow, hkept⟩

/-- **A phantom goes unnoticed**: transaction 1 scanned one user and its commit succeeds, although
    the same scan finds two users at the instant of the commit. -/
theorem phantom_insert :
    ∃ slot slot' answer now r, phantomScan.slots[1]? = some slot ∧
      phantomCommit.slots[1]? = some slot' ∧
      (query phantomScan.shared slot.tx (ascii "users") .all).1 = .ok answer ∧
      commit phantomCommit.shared slot'.tx = .ok r ∧
      (query phantomCommit.shared slot.tx (ascii "users") .all).1 = .ok now ∧
      answer.length = 1 ∧ now.length = 2 :=
  ⟨_, _, _, _, _, rfl, rfl, rfl, rfl, rfl, rfl, rfl⟩

end StateSpec.Cpp
