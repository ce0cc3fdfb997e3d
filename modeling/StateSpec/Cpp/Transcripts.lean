/-
  TRANSCRIPTS — what the operations of a transaction, with their answers, say about it.

  A transaction overlays a version key exactly when one of its operations has put or erased a record
  under it (`overlays_of_replay`, `overlays_of_writes`); so what a transaction that has written nothing
  there reads is what is committed, and if the transaction commits it is still there
  (`read_at_commit`).

  A script that is part of a longer transaction `Performs` some of its operations: what a function of
  the source that takes a transaction does to it, and what it returns.
-/
import StateSpec.Cpp.Clients
import StateSpec.Cpp.Conflicts

set_option linter.unusedSectionVars false

namespace StateSpec.Cpp

open Memory Memory.InMemoryTransaction Interleaving

variable {δ : Type}

/-! ## Writes -/

/-- The operation puts or erases the record at a place. -/
def Writes (c : CollectionName) (k : Key) : Operation δ (Query δ) → Prop
  | .put c' k' _ | .erase c' k' => c' = c ∧ k' = k
  | _ => False

theorem named_of_writes {c : CollectionName} {k : Key} {o : Operation δ (Query δ)}
    (h : Writes c k o) : named o = some (c, k) := by
  cases o with
  | put c' k' document =>
    obtain ⟨rfl, rfl⟩ := h
    rfl
  | erase c' k' =>
    obtain ⟨rfl, rfl⟩ := h
    rfl
  | get => exact h.elim
  | query => exact h.elim

theorem collectionOf_of_writes {c : CollectionName} {k : Key} {o : Operation δ (Query δ)}
    (h : Writes c k o) : collectionOf o = c := by
  cases o with
  | put c' k' document => exact h.1
  | erase c' k' => exact h.1
  | get => exact h.elim
  | query => exact h.elim

/-- The operations of a transaction, with their answers. -/
abbrev Transcript (δ : Type) := List (Operation δ (Query δ) × Except Error (Answer δ))

section

variable [Decimal δ] {s : State δ} {t : Tx δ} {o : Operation δ (Query δ)} {vk : Bytes}

/-- **What an operation overlays**: what was, and the place it writes. -/
theorem overlays_exec (hopen : t.isOpen = true) :
    (exec query o s t).2.Overlays vk ↔
      t.Overlays vk ∨ ∃ c k, Writes c k o ∧ recordVersionKey c k = vk := by
  have hframe : ∀ {t' : Tx δ}, t'.puts = t.puts → t'.erases = t.erases →
      (t'.Overlays vk ↔ t.Overlays vk) := by
    intro t' hputs herases
    rw [Overlays, Overlays, hputs, herases]
  cases o with
  | get c k =>
    obtain ⟨-, hputs, herases⟩ := get_frame .first s t c k
    have hsame := @hframe (exec query (.get c k) s t).2 hputs herases
    simp [hsame, Writes]
  | query c q =>
    have hexec : (exec query (.query c q) s t).2 = (query s t c q).2 := rfl
    rw [hexec]
    rcases query_cases s t c q with ⟨_, heq⟩ | ⟨_, records, _, heq⟩ <;> rw [heq]
    · simp [Writes]
    · obtain ⟨-, hputs, herases⟩ := t.recordReads_frame .first records
      simp [hframe hputs herases, Writes]
  | put c k document =>
    have hexec : (exec query (.put c k document) s t).2 = (put .first s t c k document).2 := rfl
    rw [hexec]
    rcases put_cases .first s t c k document with ⟨hclosed, _⟩ | ⟨_, hread, heq⟩
    · rw [hopen] at hclosed
      cases hclosed
    obtain ⟨-, hputs, herases⟩ := get_frame .first s t c k
    rw [heq, ← hframe hputs herases]
    simp only [Overlays, stage, Std.ExtTreeSet.mem_erase, Std.ExtTreeMap.mem_insert,
      Std.compare_eq_iff_eq, Writes]
    constructor
    · rintro (⟨-, herase⟩ | hkey | hput)
      · exact Or.inl (Or.inl herase)
      · exact Or.inr ⟨c, k, ⟨rfl, rfl⟩, hkey⟩
      · exact Or.inl (Or.inr hput)
    · rintro ((herase | hput) | ⟨_, _, ⟨rfl, rfl⟩, hkey⟩)
      · by_cases hkey : recordVersionKey c k = vk
        · exact Or.inr (Or.inl hkey)
        · exact Or.inl ⟨fun heq => hkey (Std.compare_eq_iff_eq.mp heq), herase⟩
      · exact Or.inr (Or.inr hput)
      · exact Or.inr (Or.inl hkey)
  | erase c k =>
    have hexec : (exec query (.erase c k) s t).2 = (erase .first s t c k).2 := rfl
    rw [hexec]
    rcases erase_cases .first s t c k with ⟨hclosed, _⟩ | ⟨_, hread, heq⟩
    · rw [hopen] at hclosed
      cases hclosed
    obtain ⟨-, hputs, herases⟩ := get_frame .first s t c k
    rw [heq, ← hframe hputs herases]
    simp only [Overlays, unstage, Std.ExtTreeSet.mem_insert, Std.ExtTreeMap.mem_erase,
      Std.compare_eq_iff_eq, Writes]
    constructor
    · rintro ((hkey | herase) | ⟨-, hput⟩)
      · exact Or.inr ⟨c, k, ⟨rfl, rfl⟩, hkey⟩
      · exact Or.inl (Or.inl herase)
      · exact Or.inl (Or.inr hput)
    · rintro ((herase | hput) | ⟨_, _, ⟨rfl, rfl⟩, hkey⟩)
      · exact Or.inl (Or.inr herase)
      · by_cases hkey : recordVersionKey c k = vk
        · exact Or.inl (Or.inl hkey)
        · exact Or.inr ⟨fun heq => hkey (Std.compare_eq_iff_eq.mp heq), hput⟩
      · exact Or.inl (Or.inl hkey)

/-- **What a transaction overlays** is what its operations have written. -/
theorem overlays_of_replay {transcript : Transcript δ}
    (h : storeDiscipline.Replay s () transcript t) :
    t.Overlays vk ↔ ∃ call ∈ transcript, ∃ c k, Writes c k call.1 ∧ recordVersionKey c k = vk := by
  induction h with
  | nil => simp [Overlays, storeWith, begin]
  | @snoc before mid o r _ hredo ih =>
    obtain ⟨s₀, -, hopen, -, -, -, rfl⟩ := hredo
    have hexec : (exec query o s₀ mid).2.Overlays vk ↔ mid.Overlays vk ∨
        ∃ c k, Writes c k o ∧ recordVersionKey c k = vk := overlays_exec hopen
    constructor
    · intro hover
      rcases hexec.mp hover with hold | hnew
      · obtain ⟨call, hcall, hwrites⟩ := ih.mp hold
        exact ⟨call, List.mem_append_left _ hcall, hwrites⟩
      · exact ⟨_, List.mem_append_right _ (List.mem_singleton_self _), hnew⟩
    · rintro ⟨call, hcall, hwrites⟩
      refine hexec.mpr ?_
      rcases List.mem_append.mp hcall with hold | hnew
      · exact Or.inl (ih.mpr ⟨call, hold, hwrites⟩)
      · obtain rfl := List.mem_singleton.mp hnew
        exact Or.inr hwrites

/-! ## The last write -/

/-- What the transaction would leave under a version key: a record, nothing, or what is there. -/
def stagedAt (t : Tx δ) (vk : Bytes) : Option (Option (VersionedRecord δ)) :=
  if vk ∈ t.erases then some none else t.puts[vk]?.map some

/-- What an operation writes under a version key. -/
def written (vk : Bytes) : Operation δ (Query δ) → Option (Option (VersionedRecord δ))
  | .put c k document =>
    if recordVersionKey c k = vk then some (some (stagedRecord c k document)) else none
  | .erase c k => if recordVersionKey c k = vk then some none else none
  | _ => none

theorem written_put (c : CollectionName) (k : Key) (document : Json δ) :
    written (recordVersionKey c k) (.put c k document) = some (some (stagedRecord c k document)) :=
  if_pos rfl

theorem written_erase (c : CollectionName) (k : Key) :
    written (δ := δ) (recordVersionKey c k) (.erase c k) = some none :=
  if_pos rfl

theorem written_erase_of_ne {vk : Bytes} {c : CollectionName} {k : Key}
    (h : recordVersionKey c k ≠ vk) : written (δ := δ) vk (.erase c k) = none :=
  if_neg h

/-- What some operations, one after another, write last under a version key. -/
def lastWritten (vk : Bytes) : Transcript δ → Option (Option (VersionedRecord δ))
  | [] => none
  | call :: calls => (lastWritten vk calls).or (written vk call.1)

theorem lastWritten_append (vk : Bytes) (calls calls' : Transcript δ) :
    lastWritten vk (calls ++ calls') = (lastWritten vk calls').or (lastWritten vk calls) := by
  induction calls with
  | nil => rw [List.nil_append, lastWritten, Option.or_none]
  | cons call calls ih => rw [List.cons_append, lastWritten, lastWritten, ih, Option.or_assoc]

/-- One operation. -/
theorem stagedAt_exec (hopen : t.isOpen = true) :
    stagedAt (exec query o s t).2 vk = (written vk o).or (stagedAt t vk) := by
  have hframe : ∀ {t' : Tx δ}, t'.puts = t.puts → t'.erases = t.erases →
      stagedAt t' vk = stagedAt t vk := by
    intro t' hputs herases
    rw [stagedAt, stagedAt, hputs, herases]
  cases o with
  | get c k =>
    obtain ⟨-, hputs, herases⟩ := get_frame .first s t c k
    exact hframe hputs herases
  | query c q =>
    have hexec : (exec query (.query c q) s t).2 = (query s t c q).2 := rfl
    rw [hexec]
    rcases query_cases s t c q with ⟨_, heq⟩ | ⟨_, records, _, heq⟩ <;> rw [heq]
    · rfl
    · obtain ⟨-, hputs, herases⟩ := t.recordReads_frame .first records
      exact hframe hputs herases
  | put c k document =>
    have hexec : (exec query (.put c k document) s t).2 = (put .first s t c k document).2 := rfl
    rw [hexec]
    rcases put_cases .first s t c k document with ⟨hclosed, _⟩ | ⟨_, hread, heq⟩
    · rw [hopen] at hclosed
      cases hclosed
    obtain ⟨-, hputs, herases⟩ := get_frame .first s t c k
    rw [heq, written, ← hframe hputs herases]
    simp only [stagedAt, stage, Std.ExtTreeSet.mem_erase, OrderedMap.find_insert]
    by_cases hvk : recordVersionKey c k = vk
    · simp [hvk]
    · simp [hvk, Ne.symm hvk]
  | erase c k =>
    have hexec : (exec query (.erase c k) s t).2 = (erase .first s t c k).2 := rfl
    rw [hexec]
    rcases erase_cases .first s t c k with ⟨hclosed, _⟩ | ⟨_, hread, heq⟩
    · rw [hopen] at hclosed
      cases hclosed
    obtain ⟨-, hputs, herases⟩ := get_frame .first s t c k
    rw [heq, written, ← hframe hputs herases]
    simp only [stagedAt, unstage, Std.ExtTreeSet.mem_insert, OrderedMap.find_erase,
      Std.compare_eq_iff_eq]
    by_cases hvk : recordVersionKey c k = vk
    · simp [hvk]
    · simp [hvk, Ne.symm hvk]

/-- **What a transaction leaves** is what its operations have written last. -/
theorem stagedAt_of_replay {transcript : Transcript δ}
    (h : storeDiscipline.Replay s () transcript t) : stagedAt t vk = lastWritten vk transcript := by
  induction h with
  | nil => simp [stagedAt, lastWritten, storeWith, begin]
  | @snoc before mid o r _ hredo ih =>
    obtain ⟨s₀, -, hopen, -, -, -, rfl⟩ := hredo
    have hexec : stagedAt (exec query o s₀ mid).2 vk = (written vk o).or (stagedAt mid vk) :=
      stagedAt_exec hopen
    rw [lastWritten_append, ← ih]
    exact hexec

theorem mem_of_lastWritten {calls : Transcript δ} {record : Option (VersionedRecord δ)}
    (h : lastWritten vk calls = some record) : ∃ call ∈ calls, written vk call.1 = some record := by
  induction calls with
  | nil => cases h
  | cons call calls ih =>
    rw [lastWritten] at h
    rcases Option.or_eq_some_iff.mp h with hrest | ⟨-, hfirst⟩
    · obtain ⟨call', hcall, hwritten⟩ := ih hrest
      exact ⟨call', List.mem_cons_of_mem _ hcall, hwritten⟩
    · exact ⟨call, List.mem_cons_self, hfirst⟩

omit [Decimal δ] in
theorem written_eq_some {record : Option (VersionedRecord δ)} (h : written vk o = some record) :
    ∃ c k, Writes c k o ∧ recordVersionKey c k = vk ∧
      ∀ found, record = some found → found.collection = c ∧ found.key = k := by
  cases o with
  | get c k => cases h
  | query c q => cases h
  | put c k document =>
    rw [written] at h
    split at h
    · refine ⟨c, k, ⟨rfl, rfl⟩, by assumption, ?_⟩
      obtain rfl := Option.some_inj.mp h
      rintro found heq
      obtain rfl := Option.some_inj.mp heq
      exact ⟨rfl, rfl⟩
    · cases h
  | erase c k =>
    rw [written] at h
    split at h
    · refine ⟨c, k, ⟨rfl, rfl⟩, by assumption, ?_⟩
      obtain rfl := Option.some_inj.mp h
      nofun
    · cases h

/-- **What a commit changes has been written**, at that place or at one that shares its counter. -/
theorem written_of_changed {r : State δ × Tx δ} (hcommit : commit s t = .ok r)
    {transcript : Transcript δ} (hstaged : ∀ vk, stagedAt t vk = lastWritten vk transcript)
    {c : CollectionName} {k : Key} (h : r.1.recordAt c k ≠ s.recordAt c k) :
    ∃ call ∈ transcript, ∃ c' k', Writes c' k' call.1 ∧
      recordVersionKey c' k' = recordVersionKey c k ∧ (colon ∉ c' → c' = c ∧ k' = k) := by
  obtain ⟨-, -, _, hst, rfl⟩ := commit_ok (commit_ok_iff.mp hcommit)
  have hlast := hstaged (recordVersionKey c k)
  rw [stagedAt] at hlast
  rcases recordAt_committed t s hst c k with ⟨record, hput, -⟩ | ⟨herase, -⟩ | ⟨-, -, hsame⟩
  · have hnot : recordVersionKey c k ∉ t.erases :=
      fun herase => nomatch hput.1.symm.trans (t.disjoint _ herase)
    rw [if_neg hnot, hput.1] at hlast
    obtain ⟨call, hcall, hwritten⟩ := mem_of_lastWritten hlast.symm
    obtain ⟨c', k', hwrites, hkey, hplace⟩ := written_eq_some hwritten
    obtain ⟨hc, hk⟩ := hplace record rfl
    exact ⟨call, hcall, c', k', hwrites, hkey, fun _ => ⟨hc ▸ hput.2.1, hk ▸ hput.2.2⟩⟩
  · rw [if_pos herase.1] at hlast
    obtain ⟨call, hcall, hwritten⟩ := mem_of_lastWritten hlast.symm
    obtain ⟨c', k', hwrites, hkey, -⟩ := written_eq_some hwritten
    refine ⟨call, hcall, c', k', hwrites, hkey, fun hc => ?_⟩
    have hparse := parse_recordVersionKey hc k'
    rw [hkey, herase.2] at hparse
    obtain ⟨rfl, rfl⟩ := Prod.mk.inj (Option.some_inj.mp hparse)
    exact ⟨rfl, rfl⟩
  · exact absurd hsame h

/-- **A commit leaves what has been written last.** -/
theorem recordAt_commit_of_staged {r : State δ × Tx δ} (hcommit : commit s t = .ok r)
    {c : CollectionName} {k : Key} (hc : colon ∉ c) {record : Option (VersionedRecord δ)}
    (h : stagedAt t (recordVersionKey c k) = some record)
    (hplace : ∀ found, record = some found → found.collection = c ∧ found.key = k) :
    (r.1.recordAt c k).map VersionedRecord.document = record.map VersionedRecord.document := by
  obtain ⟨-, -, _, hst, rfl⟩ := commit_ok (commit_ok_iff.mp hcommit)
  rw [stagedAt] at h
  by_cases herased : recordVersionKey c k ∈ t.erases
  · rw [if_pos herased] at h
    obtain rfl := Option.some_inj.mp h
    rcases recordAt_committed t s hst c k with ⟨record, hput, -⟩ | ⟨-, hgone⟩ | ⟨-, hno, -⟩
    · cases hput.1.symm.trans (t.disjoint _ herased)
    · rw [hgone]
    · exact absurd ⟨herased, parse_recordVersionKey hc k⟩ hno
  · rw [if_neg herased] at h
    obtain ⟨found, hput, rfl⟩ := Option.map_eq_some_iff.mp h
    have hputs : t.Puts c k found := ⟨hput, hplace found rfl⟩
    rcases recordAt_committed t s hst c k with ⟨record, hput', hrecord⟩ | ⟨herase, -⟩ | ⟨hno, -, -⟩
    · obtain rfl := Option.some_inj.mp (hput.symm.trans hput'.1)
      rw [hrecord]
      rfl
    · exact absurd herase.1 herased
    · exact absurd hputs (hno found)

theorem stagedAt_of_overlays (h : t.Overlays vk) : stagedAt t vk = some (t.overlay vk) := by
  rw [stagedAt, overlay]
  by_cases herased : vk ∈ t.erases
  · rw [if_pos herased, if_pos herased]
  · rw [if_neg herased, if_neg herased]
    have hput := h.resolve_left herased
    rw [Std.ExtTreeMap.mem_iff_isSome_getElem?] at hput
    obtain ⟨record, hrecord⟩ := Option.isSome_iff_exists.mp hput
    rw [hrecord]
    rfl

theorem stagedAt_of_not_overlays (h : ¬ t.Overlays vk) : stagedAt t vk = none := by
  obtain ⟨herased, hput⟩ := not_or.mp h
  rw [stagedAt, if_neg herased, Std.ExtTreeMap.getElem?_eq_none hput]
  rfl

/-- **What a transaction reads**: what it has written there last, and otherwise what is committed, which
    is so still at its commit. -/
theorem get_of_replay {first rest : Transcript δ} {c : CollectionName} {k : Key}
    {answer : Except Error (Answer δ)}
    (h : storeDiscipline.Replay s () (first ++ (.get c k, answer) :: rest) t) :
    answer = .ok (.record ((lastWritten (recordVersionKey c k) first).getD (s.recordAt c k))) := by
  obtain ⟨t₀, r, hbefore, ⟨s₀, hs, hopen, hgood, -, hvalid, rfl⟩, rfl⟩ := h.split
  have hat : s.recordAt c k = s₀.recordAt c k := get_redo hs hopen hgood hvalid
  rw [← stagedAt_of_replay hbefore, hat]
  show (exec query (.get c k) s₀ t₀).1 = _
  simp only [Cpp.exec, Memory.exec]
  by_cases hover : t₀.Overlays (recordVersionKey c k)
  · rw [get_of_overlays .first s₀ hopen hover, stagedAt_of_overlays hover]
    rfl
  · rw [get_of_not_overlays .first s₀ hopen hover, stagedAt_of_not_overlays hover]
    rfl

/-- What a transaction writes is not refused. -/
theorem write_of_replay {first rest : Transcript δ} {c : CollectionName} {k : Key}
    {answer : Except Error (Answer δ)} (hwrites : Writes c k o)
    (h : storeDiscipline.Replay s () (first ++ (o, answer) :: rest) t) : answer = .ok .done := by
  obtain ⟨t₀, r, -, ⟨s₀, -, hopen, -, -, -, rfl⟩, rfl⟩ := h.split
  have hopen' : t₀.isOpen = true := hopen
  show (exec query o s₀ t₀).1 = _
  cases o with
  | get => exact hwrites.elim
  | query => exact hwrites.elim
  | put c' k' document =>
    simp only [Cpp.exec, Memory.exec]
    rcases put_cases .first s₀ t₀ c' k' document with ⟨hclosed, -⟩ | ⟨-, hread, heq⟩
    · exact absurd (hclosed.symm.trans hopen') Bool.false_ne_true
    · rw [heq]
      rfl
  | erase c' k' =>
    simp only [Cpp.exec, Memory.exec]
    rcases erase_cases .first s₀ t₀ c' k' with ⟨hclosed, -⟩ | ⟨-, hread, heq⟩
    · exact absurd (hclosed.symm.trans hopen') Bool.false_ne_true
    · rw [heq]
      rfl

/-- **What a transaction reads that has written nothing there** is committed, and is so still at its
    commit. -/
theorem read_at_commit {first rest : Transcript δ} {c : CollectionName} {k : Key}
    {seen : Option (VersionedRecord δ)}
    (h : storeDiscipline.Replay s () (first ++ (.get c k, .ok (.record seen)) :: rest) t)
    (hfirst : ∀ call ∈ first, ∀ c' k', Writes c' k' call.1 →
      recordVersionKey c' k' ≠ recordVersionKey c k) : s.recordAt c k = seen := by
  have hanswer := get_of_replay h
  cases hlast : lastWritten (recordVersionKey c k) first with
  | none =>
    rw [hlast] at hanswer
    cases hanswer
    rfl
  | some record =>
    obtain ⟨call, hcall, hwritten⟩ := mem_of_lastWritten hlast
    obtain ⟨c', k', hwrites, hkey, -⟩ := written_eq_some hwritten
    exact absurd hkey (hfirst call hcall c' k' hwrites)

end

/-! ## Scripts within a transaction -/

namespace Script

variable {ρ : Type}

/-- The next operation of a script. -/
def operation : Script δ ρ → Option (Operation δ (Query δ))
  | .ret _ => none
  | .throw _ => none
  | .get c k _ => some (.get c k)
  | .query c q _ => some (.query c q)
  | .put c k document _ => some (.put c k document)
  | .erase c k _ => some (.erase c k)

/-- The script makes these operations when it gets these answers, and ends with the result.  An
    operation that throws ends it. -/
inductive Performs : Script δ ρ → Transcript δ → Except Error ρ → Prop where
  | ret (a : ρ) : Performs (.ret a) [] (.ok a)
  | throw (e : Error) : Performs (.throw e) [] (.error e)
  | get {c k next record calls result} : Performs (next record) calls result →
      Performs (.get c k next) ((.get c k, .ok (.record record)) :: calls) result
  | query {c q next records calls result} : Performs (next records) calls result →
      Performs (.query c q next) ((.query c q, .ok (.records records)) :: calls) result
  | put {c k document next calls result} : Performs next calls result →
      Performs (.put c k document next) ((.put c k document, .ok .done) :: calls) result
  | erase {c k next calls result} : Performs next calls result →
      Performs (.erase c k next) ((.erase c k, .ok .done) :: calls) result
  | failed {script : Script δ ρ} {o : Operation δ (Query δ)} {e : Error} :
      script.operation = some o → Performs script [(o, .error e)] (.error e)

variable {c : CollectionName} {k : Key} {document : Json δ} {calls : Transcript δ} {a : ρ}

theorem performs_get {next : Option (VersionedRecord δ) → Script δ ρ} :
    (Script.get c k next).Performs calls (.ok a) ↔
      ∃ record rest, calls = (.get c k, .ok (.record record)) :: rest ∧
        (next record).Performs rest (.ok a) := by
  constructor
  · intro h
    cases h with
    | get hrest => exact ⟨_, _, rfl, hrest⟩
  · rintro ⟨record, rest, rfl, hrest⟩
    exact .get hrest

theorem performs_put {next : Script δ ρ} :
    (Script.put c k document next).Performs calls (.ok a) ↔
      ∃ rest, calls = (.put c k document, .ok .done) :: rest ∧ next.Performs rest (.ok a) := by
  constructor
  · intro h
    cases h with
    | put hrest => exact ⟨_, rfl, hrest⟩
  · rintro ⟨rest, rfl, hrest⟩
    exact .put hrest

theorem performs_erase {next : Script δ ρ} :
    (Script.erase c k next).Performs calls (.ok a) ↔
      ∃ rest, calls = (.erase c k, .ok .done) :: rest ∧ next.Performs rest (.ok a) := by
  constructor
  · intro h
    cases h with
    | erase hrest => exact ⟨_, rfl, hrest⟩
  · rintro ⟨rest, rfl, hrest⟩
    exact .erase hrest

theorem performs_ret {b : ρ} :
    (Script.ret b : Script δ ρ).Performs calls (.ok a) ↔ calls = [] ∧ a = b := by
  constructor
  · intro h
    cases h
    exact ⟨rfl, rfl⟩
  · rintro ⟨rfl, rfl⟩
    exact .ret _

theorem performs_throw {e : Error} : ¬ (Script.throw e : Script δ ρ).Performs calls (.ok a) := nofun

/-- **Sequencing**: the operations of the first script, and then those of the second. -/
theorem performs_do {α : Type} {p : Script δ α} {f : α → Script δ ρ} :
    (p >>= f).Performs calls (.ok a) ↔
      ∃ b first rest, calls = first ++ rest ∧ p.Performs first (.ok b) ∧
        (f b).Performs rest (.ok a) := by
  show (p.bind f).Performs calls (.ok a) ↔ _
  constructor
  · intro h
    induction p generalizing calls with
    | ret b => exact ⟨b, [], calls, rfl, .ret b, h⟩
    | throw e => exact absurd h performs_throw
    | get c k next ih =>
      obtain ⟨record, rest, rfl, hrest⟩ := performs_get.mp h
      obtain ⟨b, first, last, rfl, hfirst, hlast⟩ := ih record hrest
      exact ⟨b, _ :: first, last, rfl, .get hfirst, hlast⟩
    | query c q next ih =>
      cases h with
      | @query _ _ _ records rest _ hrest =>
        obtain ⟨b, first, last, rfl, hfirst, hlast⟩ := ih records hrest
        exact ⟨b, _ :: first, last, rfl, .query hfirst, hlast⟩
    | put c k document next ih =>
      obtain ⟨rest, rfl, hrest⟩ := performs_put.mp h
      obtain ⟨b, first, last, rfl, hfirst, hlast⟩ := ih hrest
      exact ⟨b, _ :: first, last, rfl, .put hfirst, hlast⟩
    | erase c k next ih =>
      obtain ⟨rest, rfl, hrest⟩ := performs_erase.mp h
      obtain ⟨b, first, last, rfl, hfirst, hlast⟩ := ih hrest
      exact ⟨b, _ :: first, last, rfl, .erase hfirst, hlast⟩
  · rintro ⟨b, first, rest, rfl, hfirst, hrest⟩
    generalize hresult : (Except.ok b : Except Error α) = result at hfirst
    induction hfirst with
    | ret b' =>
      obtain rfl := Except.ok.inj hresult
      exact hrest
    | throw e => cases hresult
    | get _ ih => exact .get (ih hresult)
    | query _ ih => exact .query (ih hresult)
    | put _ ih => exact .put (ih hresult)
    | erase _ ih => exact .erase (ih hresult)
    | failed _ => cases hresult

theorem performs_ofExcept {x : Except Error ρ} :
    (Script.ofExcept x : Script δ ρ).Performs calls (.ok a) ↔ calls = [] ∧ x = .ok a := by
  cases x with
  | ok b =>
    rw [ofExcept, performs_ret]
    exact and_congr_right fun _ => ⟨fun h => h ▸ rfl, fun h => (Except.ok.inj h).symm⟩
  | error e => exact ⟨fun h => absurd h performs_throw, fun h => nomatch h.2⟩

/-- **A script with nobody else around** makes its operations one after another. -/
theorem performs_of_eval [Decimal δ] {s : State δ} {p : Script δ ρ} {t t' : Tx δ}
    {result : Except Error ρ} (hopen : t.isOpen = true) (h : p.eval s t = (result, t')) :
    ∃ calls, p.Performs calls result ∧
      ∀ vk, stagedAt t' vk = (lastWritten vk calls).or (stagedAt t vk) := by
  induction p generalizing t with
  | ret a =>
    obtain ⟨rfl, rfl⟩ := Prod.mk.inj h
    exact ⟨[], .ret a, fun vk => rfl⟩
  | throw e =>
    obtain ⟨rfl, rfl⟩ := Prod.mk.inj h
    exact ⟨[], .throw e, fun vk => rfl⟩
  | get c k next ih =>
    have hstay := isOpen_exec lawful_query (.get c k) s t
    have hcall := fun vk => @stagedAt_exec δ _ s t (.get c k) vk hopen
    simp only [Cpp.exec, Memory.exec] at hstay hcall
    rw [eval] at h
    split at h
    · obtain ⟨calls, hperforms, hstaged⟩ := ih _ (hstay.trans hopen) h
      refine ⟨_, .get hperforms, fun vk => ?_⟩
      rw [hstaged, hcall, lastWritten, Option.or_assoc]
    · obtain ⟨rfl, rfl⟩ := Prod.mk.inj h
      exact ⟨_, .failed rfl, hcall⟩
  | query c q next ih =>
    have hstay := isOpen_exec lawful_query (.query c q) s t
    have hcall := fun vk => @stagedAt_exec δ _ s t (.query c q) vk hopen
    simp only [Cpp.exec, Memory.exec] at hstay hcall
    rw [eval] at h
    split at h
    · obtain ⟨calls, hperforms, hstaged⟩ := ih _ (hstay.trans hopen) h
      refine ⟨_, .query hperforms, fun vk => ?_⟩
      rw [hstaged, hcall, lastWritten, Option.or_assoc]
    · obtain ⟨rfl, rfl⟩ := Prod.mk.inj h
      exact ⟨_, .failed rfl, hcall⟩
  | put c k document next ih =>
    have hstay := isOpen_exec lawful_query (.put c k document) s t
    have hcall := fun vk => @stagedAt_exec δ _ s t (.put c k document) vk hopen
    simp only [Cpp.exec, Memory.exec] at hstay hcall
    rw [eval] at h
    split at h
    · obtain ⟨calls, hperforms, hstaged⟩ := ih (hstay.trans hopen) h
      refine ⟨_, .put hperforms, fun vk => ?_⟩
      rw [hstaged, hcall, lastWritten, Option.or_assoc]
    · obtain ⟨rfl, rfl⟩ := Prod.mk.inj h
      exact ⟨_, .failed rfl, hcall⟩
  | erase c k next ih =>
    have hstay := isOpen_exec lawful_query (.erase c k) s t
    have hcall := fun vk => @stagedAt_exec δ _ s t (.erase c k) vk hopen
    simp only [Cpp.exec, Memory.exec] at hstay hcall
    rw [eval] at h
    split at h
    · obtain ⟨calls, hperforms, hstaged⟩ := ih (hstay.trans hopen) h
      refine ⟨_, .erase hperforms, fun vk => ?_⟩
      rw [hstaged, hcall, lastWritten, Option.or_assoc]
    · obtain ⟨rfl, rfl⟩ := Prod.mk.inj h
      exact ⟨_, .failed rfl, hcall⟩

end Script

end StateSpec.Cpp
