/-
  ENCODED INDEX KEYS of the Go in-memory backend — `encodeIndexKey` of `transaction.go.tmpl` against
  the lists of parts that the C++ backend keeps.

  Go writes a key as one string, each part behind its length and a ':'.  The lengths make the string
  readable in one way only (`encodePart_inj`), so beginnings are kept (`encodeIndexKey_prefix_iff`) and
  equality queries and prefix queries cannot tell the two backends apart.  The order is not kept: two
  parts of different lengths compare by the numerals of their lengths (`compare_encodeIndexKey`).

  * `index_queries_agree_iff` — over the same documents both backends select the same records, unless
                                a range query meets a record whose bounds are read by length.
-/
import StateSpec.Cpp.IndexRange
import StateSpec.Go.Commit

set_option linter.unusedSectionVars false

namespace StateSpec.Go

open Memory Memory.InMemoryTransaction

variable {δ : Type} [Decimal δ]

/-! ## Reading an encoded key -/

/-- A part of a key, behind its length. -/
def encodePart (part : Bytes) : Bytes := Bytes.decimal part.length ++ colon :: part

theorem encodeIndexKey_cons (part : Bytes) (parts : InMemoryIndexKey) :
    encodeIndexKey (part :: parts) = encodePart part ++ encodeIndexKey parts := rfl

theorem encodeIndexKey_append (pre parts : InMemoryIndexKey) :
    encodeIndexKey (pre ++ parts) = encodeIndexKey pre ++ encodeIndexKey parts :=
  List.flatMap_append

/-- **The first part of an encoded key** can be read in one way only. -/
theorem encodePart_inj {p q rest rest' : Bytes} (h : encodePart p ++ rest = encodePart q ++ rest') :
    p = q ∧ rest = rest' := by
  rw [encodePart, encodePart, List.append_assoc, List.append_assoc, List.cons_append,
    List.cons_append] at h
  -- the ':' ends the length
  obtain ⟨hlength, htail⟩ :=
    Bytes.glue_inj (Bytes.colon_not_mem_decimal _) (Bytes.colon_not_mem_decimal _) h
  exact List.append_inj htail (Bytes.decimal_injective hlength)

theorem encodePart_prefix {p q : Bytes} (h : encodePart p <+: encodePart q) : p = q := by
  obtain ⟨rest, hrest⟩ := h
  rw [← List.append_nil (encodePart q)] at hrest
  exact (encodePart_inj hrest).1

/-- **Encoding keeps beginnings**: what Go asks with `strings.HasPrefix` is a question about parts. -/
theorem encodeIndexKey_prefix_iff {pre key : InMemoryIndexKey} :
    encodeIndexKey pre <+: encodeIndexKey key ↔ pre <+: key := by
  constructor
  · intro h
    induction pre generalizing key with
    | nil => exact List.nil_prefix
    | cons p pre ih =>
      obtain ⟨rest, hrest⟩ := h
      rw [encodeIndexKey_cons, List.append_assoc] at hrest
      cases key with
      | nil =>
        have hlength := congrArg List.length hrest
        simp [encodePart, encodeIndexKey] at hlength
      | cons q key =>
        rw [encodeIndexKey_cons] at hrest
        obtain ⟨rfl, htail⟩ := encodePart_inj hrest
        exact List.cons_prefix_cons.mpr ⟨rfl, ih ⟨rest, htail⟩⟩
  · rintro ⟨rest, rfl⟩
    rw [encodeIndexKey_append]
    exact List.prefix_append _ _

/-! ## Comparing encoded keys -/

/-- What stands before a part of a length. -/
def lengthHead (length : Nat) : Bytes := Bytes.decimal length ++ [colon]

/-- The heads of two lengths differ before either of them ends. -/
theorem lengthHead_prefix {m n : Nat} (h : lengthHead m <+: lengthHead n) : m = n := by
  obtain ⟨rest, hrest⟩ := h
  rw [lengthHead, lengthHead, List.append_assoc, List.singleton_append] at hrest
  obtain ⟨hnumeral, -⟩ :=
    Bytes.glue_inj (Bytes.colon_not_mem_decimal _) (Bytes.colon_not_mem_decimal _) hrest
  exact Bytes.decimal_injective hnumeral

/-- **How two parts compare once they are encoded**: by their lengths' numerals, or, where these are
    the same, as they are. -/
theorem compare_encodePart {p q : Bytes} (hpq : p ≠ q) (rest rest' : Bytes) :
    compare (encodePart p ++ rest) (encodePart q ++ rest') ≠ .eq ∧
      compare (encodePart p ++ rest) (encodePart q ++ rest') =
        if p.length = q.length then compare p q
        else compare (lengthHead p.length) (lengthHead q.length) := by
  have hapart := compare_of_apart (mt encodePart_prefix hpq)
    (mt encodePart_prefix (Ne.symm hpq)) rest rest'
  refine ⟨hapart.1 ▸ hapart.2, ?_⟩
  have hhead : ∀ part : Bytes, encodePart part = lengthHead part.length ++ part := by
    intro part
    rw [encodePart, lengthHead, List.append_assoc, List.singleton_append]
  rw [hapart.1, hhead, hhead]
  by_cases hlength : p.length = q.length
  · rw [if_pos hlength, hlength, compare_append_left]
  · rw [if_neg hlength]
    exact (compare_of_apart (mt lengthHead_prefix hlength)
      (mt lengthHead_prefix (Ne.symm hlength)) p q).1

/-- The part that a text becomes in a key. -/
def textPart (value : Bytes) : Bytes := ascii "string:" ++ value

theorem textPart_inj {p q : Bytes} (h : textPart p = textPart q) : p = q := List.append_cancel_left h

/-- Two tuples of texts first differ in texts of different lengths, and the numerals of the lengths
    compare otherwise than the texts. -/
def LengthMisread (ws vs : List Bytes) : Prop :=
  ∃ pre p q rest rest', ws = pre ++ p :: rest ∧ vs = pre ++ q :: rest' ∧ p.length ≠ q.length ∧
    compare (lengthHead (textPart p).length) (lengthHead (textPart q).length) ≠ compare p q

/-- Where one tuple begins the other, no length is misread. -/
theorem not_lengthMisread {ws vs : List Bytes} (h : ws <+: vs ∨ vs <+: ws) :
    ¬ LengthMisread ws vs := by
  rintro ⟨pre, p, q, rest, rest', rfl, rfl, hlength, -⟩
  rcases h with h | h
  · have hparts := List.cons_prefix_cons.mp ((List.prefix_append_right_inj pre).mp h)
    exact hlength (congrArg List.length hparts.1)
  · have hparts := List.cons_prefix_cons.mp ((List.prefix_append_right_inj pre).mp h)
    exact hlength (congrArg List.length hparts.1.symm)

/-- A key with one more part has a longer encoding. -/
theorem encodeIndexKey_longer (key : InMemoryIndexKey) (part : Bytes) (parts : InMemoryIndexKey) :
    ∃ b tail, encodeIndexKey (key ++ part :: parts) = encodeIndexKey key ++ b :: tail := by
  obtain ⟨b, tail, htail⟩ : ∃ b tail, encodeIndexKey (part :: parts) = b :: tail := by
    refine List.exists_cons_of_ne_nil fun hnil => ?_
    have hlength := congrArg List.length hnil
    simp [encodeIndexKey_cons, encodePart] at hlength
  exact ⟨b, tail, by rw [encodeIndexKey_append, htail]⟩

/-- **How keys of texts compare once they are encoded.** -/
theorem compare_encodeIndexKey (ws vs : List Bytes) :
    (compare (encodeIndexKey (ws.map textPart)) (encodeIndexKey (vs.map textPart)) = .eq ↔
        compare (ws.map textPart) (vs.map textPart) = .eq) ∧
      (compare (encodeIndexKey (ws.map textPart)) (encodeIndexKey (vs.map textPart)) ≠
        compare (ws.map textPart) (vs.map textPart) ↔ LengthMisread ws vs) := by
  rcases list_cases ws vs with rfl | ⟨v, rest, rfl⟩ | ⟨w, rest, rfl⟩ |
    ⟨pre, p, q, rest, rest', hpq, rfl, rfl⟩
  · have hself : compare (ws.map textPart) (ws.map textPart) = .eq := Std.ReflCmp.compare_self
    have hself' : compare (encodeIndexKey (ws.map textPart)) (encodeIndexKey (ws.map textPart)) =
        .eq := Std.ReflCmp.compare_self
    rw [hself, hself']
    exact ⟨Iff.rfl, iff_of_false (fun hne => hne rfl) (not_lengthMisread (Or.inl List.prefix_rfl))⟩
  · obtain ⟨b, tail, htail⟩ := encodeIndexKey_longer (ws.map textPart) (textPart v) (rest.map textPart)
    rw [List.map_append, List.map_cons, htail, (compare_append_cons _ b tail).1,
      (compare_append_cons (ws.map textPart) _ _).1]
    exact ⟨Iff.rfl, iff_of_false (fun hne => hne rfl)
      (not_lengthMisread (Or.inl (List.prefix_append _ _)))⟩
  · obtain ⟨b, tail, htail⟩ := encodeIndexKey_longer (vs.map textPart) (textPart w) (rest.map textPart)
    rw [List.map_append, List.map_cons, htail, (compare_append_cons _ b tail).2,
      (compare_append_cons (vs.map textPart) _ _).2]
    exact ⟨Iff.rfl, iff_of_false (fun hne => hne rfl)
      (not_lengthMisread (Or.inr (List.prefix_append _ _)))⟩
  · have hparts : textPart p ≠ textPart q := mt textPart_inj hpq
    have hne : compare (textPart p) (textPart q) ≠ .eq := fun heq =>
      hparts (Std.compare_eq_iff_eq.mp heq)
    obtain ⟨hne', hencoded⟩ := compare_encodePart hparts (encodeIndexKey (rest.map textPart))
      (encodeIndexKey (rest'.map textPart))
    have hlengths : (textPart p).length = (textPart q).length ↔ p.length = q.length := by
      simp [textPart]
    have htexts : compare (textPart p) (textPart q) = compare p q := compare_append_left _ p q
    rw [List.map_append, List.map_append, List.map_cons, List.map_cons, encodeIndexKey_append,
      encodeIndexKey_append, encodeIndexKey_cons, encodeIndexKey_cons, compare_append_left,
      compare_of_diff (pre.map textPart) hne]
    refine ⟨iff_of_false hne' hne, ?_⟩
    rw [hencoded, htexts]
    constructor
    · intro hmis
      by_cases hlength : p.length = q.length
      · rw [if_pos (hlengths.mpr hlength)] at hmis
        exact absurd rfl hmis
      · rw [if_neg (mt hlengths.mp hlength)] at hmis
        exact ⟨pre, p, q, rest, rest', rfl, rfl, hlength, hmis⟩
    · rintro ⟨pre', p', q', rest₁, rest₂, hws, hvs, hlength, hmis⟩
      -- the first difference is at one place only
      have hpq' : p' ≠ q' := fun heq => hlength (congrArg List.length heq)
      obtain ⟨rfl, rfl, rfl⟩ := first_difference hpq hpq' hws hvs
      rw [if_neg (mt hlengths.mp hlength)]
      exact hmis

/-! ## Consistent indexes -/

/-- Every registered index is exactly the image of the committed records. -/
def IndexConsistent (s : State δ) : Prop :=
  ∀ c name d, descriptorOf s.indexes c name = some d → ∀ ikey k,
    Files s.indexes c name ikey k ↔ ∃ r, s.recordAt c k = some r ∧ entryKey r.document d = .ok ikey

/-- What staging comes to is consistent with the records that the commit leaves. -/
theorem image_staged {s : State δ} {t : InMemoryTransaction δ} {o : Orders δ}
    {indexes : Indexes Bytes} (hs : IndexConsistent s) (hst : stagedIndexes o s t = .ok indexes)
    {c : CollectionName} {name : Bytes} {d : IndexDescriptor}
    (hd : descriptorOf indexes c name = some d) (ikey : Bytes) (k : Key) :
    Files indexes c name ikey k ↔
      ∃ r, OrderedMap.find₂ (t.apply s).1 c k = some r ∧ entryKey r.document d = .ok ikey := by
  have hsofar := stagedSoFar_of_stagedIndexes hst
  have hd' : descriptorOf s.indexes c name = some d := (hsofar.descriptors c name).symm.trans hd
  have hmem : ∀ r, r ∈ visit o.stagedPuts t.stagedRecords ↔ r ∈ t.stagedRecords := fun r =>
    (visit_perm o.stagedPuts t.stagedRecords).mem_iff
  rw [hsofar.files, FiledAfter]
  rcases t.apply_cases s c k with ⟨r, hput, hr⟩ | ⟨he, hr⟩ | ⟨hno, hne, hr⟩ <;> rw [hr]
  · -- a staged record: it is filed where its own document belongs
    obtain ⟨-, rfl, rfl⟩ := id hput
    have hstaged := mem_of_puts hput
    constructor
    · rintro (⟨r', hr', hc, hk, d', hd'', hkey⟩ | ⟨hfree, -⟩)
      · obtain rfl := Option.some_inj.mp (hd'.symm.trans hd'')
        obtain rfl := Binding.staged_unique hstaged ((hmem r').mp hr') hc hk
        exact ⟨_, rfl, hkey⟩
      · exact absurd ⟨rfl, rfl⟩ (hfree r ((hmem r).mpr hstaged))
    · rintro ⟨r', heq, hkey⟩
      obtain rfl := Option.some_inj.mp heq
      exact Or.inl ⟨r, (hmem r).mpr hstaged, rfl, rfl, d, hd', hkey⟩
  · -- an erased record: nothing is filed for its place
    refine iff_of_false ?_ ?_
    · rintro (⟨r', hr', rfl, rfl, -⟩ | ⟨-, hne, -⟩)
      · exact not_erases_of_puts (puts_of_mem ((hmem r').mp hr')) he
      · exact hne he
    · rintro ⟨r', heq, -⟩
      cases heq
  · -- any other place is as it was
    rw [← hs c name d hd' ikey k]
    constructor
    · rintro (⟨r', hr', rfl, rfl, -⟩ | ⟨-, -, hfiles⟩)
      · exact absurd (puts_of_mem ((hmem r').mp hr')) (hno r')
      · exact hfiles
    · refine fun hfiles => Or.inr ⟨?_, hne, hfiles⟩
      rintro r' hr' ⟨rfl, rfl⟩
      exact hno r' (puts_of_mem ((hmem r').mp hr'))

/-- **A successful commit keeps the indexes consistent**, whatever order Go takes. -/
theorem indexConsistent_commit {s s' : State δ} {t : InMemoryTransaction δ} {o : Orders δ}
    (hs : IndexConsistent s) (hok : (commit o s t).error = none)
    (hrecords : s'.records = (commit o s t).records)
    (hindexes : s'.indexes = (commit o s t).indexes) : IndexConsistent s' := by
  rw [commit] at hok hrecords hindexes
  split at hok
  · cases hok
  · rename_i hopen
    rw [if_neg hopen] at hrecords hindexes
    split at hok
    · cases hok
    · rename_i hcurrent
      rw [if_neg hcurrent] at hrecords hindexes
      cases hst : stagedIndexes o s t with
      | error fault =>
        rw [hst] at hok
        cases hok
      | ok indexes =>
        simp only [hst, applied_eq] at hrecords hindexes
        intro c name d hd ikey k
        rw [hindexes] at hd ⊢
        rw [image_staged hs hst hd, InMemoryState.recordAt, hrecords]

/-! ## The same queries to both backends -/

/-- The committed documents of a collection, and the values of a query, are texts. -/
structure Textual (s : Cpp.State δ) (c : CollectionName) (d : IndexDescriptor) (query : Query δ) :
    Prop where
  documents : ∀ k r, s.recordAt c k = some r →
    ∃ ws : List Bytes, Cpp.valuesOf r.document d = some (ws.map .text)
  values : ∃ vs : List Bytes,
    query.indexValues.mapM Cpp.OrderedValue.ofIndexValue = some (vs.map .text)
  lower : ∀ b, query.lowerBound = some b → ∃ vs : List Bytes, Cpp.boundValues b = some (vs.map .text)
  upper : ∀ b, query.upperBound = some b → ∃ vs : List Bytes, Cpp.boundValues b = some (vs.map .text)

/-- How Go compares a tuple of texts with a bound. -/
def byEncoding (ws : List Bytes) (bound : IndexBound δ) : Ordering :=
  compare (encodeIndexKey (ws.map textPart)) (encodeIndexKey (extractQueryIndexKey bound.values))

/-- How C++ compares them. -/
def byParts (ws : List Bytes) (bound : IndexBound δ) : Ordering :=
  compare (ws.map textPart) (extractQueryIndexKey bound.values)

/-- A tuple and a bound first differ in texts of different lengths, and their numerals compare
    otherwise. -/
def BoundMisread (ws : List Bytes) (bound : Option (IndexBound δ)) : Prop :=
  ∃ (b : IndexBound δ) (vs : List Bytes), bound = some b ∧ Cpp.boundValues b = some (vs.map .text) ∧
    LengthMisread ws vs

/-- The condition on a record: every bound that is misread for it is made up for by the other. -/
def RangeReadAlike (d : IndexDescriptor) (lower upper : Option (IndexBound δ))
    (r : VersionedRecord δ) : Prop :=
  ∀ ws : List Bytes, Cpp.valuesOf r.document d = some (ws.map .text) →
    MadeUpFor (BoundMisread ws lower) (BoundMisread ws upper)
      (Above IndexBound.inclusive byParts ws lower) (Below IndexBound.inclusive byParts ws upper)

theorem map_encode_text (ws : List Bytes) :
    (ws.map Cpp.OrderedValue.text).map Cpp.OrderedValue.encode = ws.map textPart := by
  rw [List.map_map]
  rfl

/-- **What Go makes of a tuple and a bound of texts.** -/
theorem byEncoding_iff (ws : List Bytes) {bound : Option (IndexBound δ)}
    (hbound : ∀ b, bound = some b → ∃ vs : List Bytes, Cpp.boundValues b = some (vs.map .text)) :
    (∀ b, bound = some b → (byEncoding ws b = .eq ↔ byParts ws b = .eq)) ∧
      (Misread byEncoding byParts ws bound ↔ BoundMisread ws bound) := by
  have hkey : ∀ {b : IndexBound δ} {vs : List Bytes}, Cpp.boundValues b = some (vs.map .text) →
      extractQueryIndexKey b.values = vs.map textPart := by
    intro b vs hvs
    rw [Cpp.extractQueryIndexKey_of_boundValues hvs, map_encode_text]
  constructor
  · intro b hb
    obtain ⟨vs, hvs⟩ := hbound b hb
    rw [byEncoding, byParts, hkey hvs]
    exact (compare_encodeIndexKey ws vs).1
  · constructor
    · rintro ⟨b, hb, hne⟩
      obtain ⟨vs, hvs⟩ := hbound b hb
      rw [byEncoding, byParts, hkey hvs] at hne
      exact ⟨b, vs, hb, hvs, (compare_encodeIndexKey ws vs).2.mp hne⟩
    · rintro ⟨b, vs, hb, hvs, hmis⟩
      refine ⟨b, hb, ?_⟩
      rw [byEncoding, byParts, hkey hvs]
      exact (compare_encodeIndexKey ws vs).2.mpr hmis

section

variable {s : Cpp.State δ} {s' : State δ} {t t' : InMemoryTransaction δ} {c : CollectionName}
  {name : Bytes} {d : IndexDescriptor} {query : Query δ}

/-- What a Go index query answers to a transaction that has staged nothing. -/
theorem mem_indexQuery (hs : IndexConsistent s') (hopen : t'.isOpen = true) (hidle : Cpp.Idle t')
    (hindex : Cpp.isIndexQuery query = true) (hname : query.indexName = some name)
    (hd : descriptorOf s'.indexes c name = some d) :
    ∃ records, (binding.query s' t' c query).1 = .ok records ∧
      ∀ r, r ∈ records ↔ s'.recordAt c r.key = some r ∧
        ∃ key, extractIndexKey r.document d = .ok key ∧
          matchesIndexKey (encodeIndexKey key) query = true := by
  have hnone : t'.stagedRecords = [] := by
    rw [stagedRecords, hidle.1]
    rfl
  obtain ⟨records, hrecords⟩ : ∃ records,
      binding.queryRecords s' t' c (binding.selector query) = .ok records := by
    refine binding.queryRecords_ok.mpr fun _ r hr => ?_
    rw [hnone] at hr
    exact absurd hr List.not_mem_nil
  refine ⟨records, by rw [Binding.query, if_neg (by simp [hopen]), hrecords], fun r => ?_⟩
  rw [binding.mem_queryRecords hrecords]
  have hselects : (binding.selector query : Selector δ Bytes).isIndex = true := hindex
  have hmatched : (binding.selector query : Selector δ Bytes).matchesRecord r = true := by
    show recordMatchesQuery r query = true
    rw [Cpp.isIndexQuery] at hindex
    rw [recordMatchesQuery]
    cases hkind : query.kind <;> simp_all
  constructor
  · rintro (⟨hr, hfinds, -, -, -, -⟩ | ⟨⟨hstaged, -⟩, -⟩)
    · obtain ⟨name', ikey, hname', hmatch, hfiles⟩ := hfinds hselects
      obtain rfl : name = name' := Option.some_inj.mp (hname.symm.trans hname')
      obtain ⟨r', hr', hkey⟩ := (hs c name d hd ikey r.key).mp hfiles
      obtain rfl := Option.some_inj.mp (hr'.symm.trans hr)
      rw [entryKey] at hkey
      cases hparts : extractIndexKey r'.document d with
      | error fault =>
        rw [hparts] at hkey
        cases hkey
      | ok key =>
        rw [hparts] at hkey
        obtain rfl := Except.ok.inj hkey
        exact ⟨hr, key, rfl, hmatch⟩
    · rw [hnone] at hstaged
      exact absurd hstaged List.not_mem_nil
  · rintro ⟨hr, key, hkey, hmatch⟩
    have hentry : (entryKey r.document d : Except Fault Bytes) = .ok (encodeIndexKey key) := by
      rw [entryKey, hkey]
      rfl
    refine Or.inl ⟨hr, fun _ => ⟨name, encodeIndexKey key, hname, hmatch,
      (hs c name d hd _ r.key).mpr ⟨r, hr, hentry⟩⟩, ?_, ?_, ?_, hmatched⟩
    · intro hplain
      rw [hselects] at hplain
      cases hplain
    · rintro r' ⟨hstaged, -⟩
      rw [hnone] at hstaged
      exact absurd hstaged List.not_mem_nil
    · intro vk hvk
      rw [hidle.2] at hvk
      simp at hvk

/-- **When both backends accept the key of a document.** -/
theorem matches_agree_iff {ws : List Bytes} (htext : Textual s c d query) :
    (Cpp.matchesIndexKey (ws.map textPart) query = true ↔
        matchesIndexKey (encodeIndexKey (ws.map textPart)) query = true) ↔
      (query.kind = .indexRange →
        MadeUpFor (BoundMisread ws query.lowerBound) (BoundMisread ws query.upperBound)
          (Above IndexBound.inclusive byParts ws query.lowerBound)
          (Below IndexBound.inclusive byParts ws query.upperBound)) := by
  have hbegins : ∀ pre : InMemoryIndexKey, Memory.indexKeyStartsWith (ws.map textPart) pre = true ↔
      indexKeyStartsWith (encodeIndexKey (ws.map textPart)) pre = true := by
    intro pre
    rw [Cpp.indexKeyStartsWith_iff, indexKeyStartsWith, Cpp.startsWith_iff, encodeIndexKey_prefix_iff]
  rw [Cpp.matchesIndexKey, matchesIndexKey]
  cases hkind : query.kind with
  | all | keyPrefix | jsonEquals =>
    refine iff_of_true Iff.rfl fun h => ?_
    cases h
  | indexEquals | indexPrefix =>
    refine iff_of_true (hbegins _) fun h => ?_
    cases h
  | indexRange =>
    obtain ⟨hlower, hmisL⟩ := byEncoding_iff ws htext.lower
    obtain ⟨hupper, hmisU⟩ := byEncoding_iff ws htext.upper
    have hcpp : Memory.indexKeyInRange (ws.map textPart) query.lowerBound query.upperBound = true ↔
        Within IndexBound.inclusive byParts ws query.lowerBound query.upperBound := keyInRange_iff
    have hgo : keyInRange compare (encodeIndexKey (ws.map textPart)) query.lowerBound
          query.upperBound = true ↔
        Within IndexBound.inclusive byEncoding ws query.lowerBound query.upperBound := keyInRange_iff
    simp only [forall_const]
    rw [hcpp, hgo]
    refine iff_comm.trans ?_
    rw [within_agree_iff hlower hupper, hmisL, hmisU]

/-- **When both backends select the same records**: always for equality and beginnings; for a range
    when the lengths of the texts mislead Go about no record. -/
theorem index_queries_agree_iff (hs : Cpp.IndexConsistent s) (hs' : IndexConsistent s')
    (hsame : ∀ k, s.recordAt c k = s'.recordAt c k)
    (hd : descriptorOf s.indexes c name = some d) (hd' : descriptorOf s'.indexes c name = some d)
    (hindex : Cpp.isIndexQuery query = true) (hname : query.indexName = some name)
    (htext : Textual s c d query) (hopen : t.isOpen = true) (hidle : Cpp.Idle t)
    (hopen' : t'.isOpen = true) (hidle' : Cpp.Idle t') :
    (∃ records records', (Cpp.query s t c query).1 = .ok records ∧
        (binding.query s' t' c query).1 = .ok records' ∧ ∀ r, r ∈ records ↔ r ∈ records') ↔
      (query.kind = .indexRange → ∀ k r, s.recordAt c k = some r →
        RangeReadAlike d query.lowerBound query.upperBound r) := by
  obtain ⟨records, hrecords, hmem⟩ := Cpp.mem_indexQuery hs hopen hidle hindex hname hd
  obtain ⟨records', hrecords', hmem'⟩ := mem_indexQuery hs' hopen' hidle' hindex hname hd'
  have hkey : ∀ {r : VersionedRecord δ} {ws : List Bytes},
      Cpp.valuesOf r.document d = some (ws.map .text) →
      extractIndexKey r.document d = .ok (ws.map textPart) := by
    intro r ws hws
    rw [Cpp.extractIndexKey_of_valuesOf hws, map_encode_text]
  constructor
  · rintro ⟨answer, answer', hanswer, hanswer', hagree⟩ hrange k r hr ws hws
    obtain rfl := Except.ok.inj (hrecords.symm.trans hanswer)
    obtain rfl := Except.ok.inj (hrecords'.symm.trans hanswer')
    have hat : s.recordAt c r.key = some r := by rw [(InMemoryState.recordAt_keyed hr).2, hr]
    refine (matches_agree_iff htext).mp ?_ hrange
    constructor
    · intro h
      obtain ⟨-, key, hk, hmatch⟩ :=
        (hmem' r).mp ((hagree r).mp ((hmem r).mpr ⟨hat, _, hkey hws, h⟩))
      obtain rfl := Except.ok.inj ((hkey hws).symm.trans hk)
      exact hmatch
    · intro h
      obtain ⟨-, key, hk, hmatch⟩ :=
        (hmem r).mp ((hagree r).mpr ((hmem' r).mpr ⟨hsame _ ▸ hat, _, hkey hws, h⟩))
      obtain rfl := Except.ok.inj ((hkey hws).symm.trans hk)
      exact hmatch
  · intro h
    refine ⟨records, records', hrecords, hrecords', fun r => ?_⟩
    rw [hmem, hmem', ← hsame]
    refine and_congr_right fun hr => exists_congr fun key => and_congr_right fun hk => ?_
    obtain ⟨ws, hws⟩ := htext.documents _ r hr
    obtain rfl := Except.ok.inj ((hkey hws).symm.trans hk)
    exact (matches_agree_iff htext).mpr fun hrange => h hrange _ r hr ws hws

end

/-! ## A user of Rome -/

/-- The user's collection in the C++ backend, with a user of Rome. -/
def romanState : Cpp.State Empty :=
  match Cpp.commit Cpp.indexedState (Cpp.putRoman Cpp.indexedState) with
  | .ok r => r.1
  | .error _ => Cpp.indexedState

/-- A registered collection in the Go backend, empty. -/
def registeredState (descriptor : CollectionDescriptor) : State Empty where
  collections :=
    (∅ : OrderedMap CollectionName CollectionDescriptor).insert descriptor.name descriptor
  records := ∅
  versions := ∅
  indexes := (∅ : Indexes Bytes).insert descriptor.name (emptyIndexStates descriptor)
  keyed := keyed_empty
  counted := counted_empty
  sound c name ikey k h := by
    by_cases hc : c = descriptor.name
    · subst hc
      refine absurd h (not_files_emptyIndexStates (d := descriptor) ?_ name ikey k)
      rw [OrderedMap.find_insert, if_pos rfl]
    · obtain ⟨index, hindex, -⟩ := h
      rw [OrderedMap.find₂, OrderedMap.find_insert, if_neg hc] at hindex
      simp at hindex
  indexed c h := by
    rw [Std.ExtTreeMap.mem_insert] at h ⊢
    exact h.imp_right fun h => by simp at h

theorem indexConsistent_registeredState (descriptor : CollectionDescriptor) :
    IndexConsistent (registeredState descriptor) := by
  intro c name d _ ikey k
  have hnone : (registeredState descriptor).recordAt c k = none := OrderedMap.find₂_empty c k
  constructor
  · intro hfiles
    obtain ⟨r, -, hr, -⟩ := (registeredState descriptor).sound c name ikey k hfiles
    exact absurd (hr.symm.trans hnone) (by simp)
  · rintro ⟨r, hr, -⟩
    exact absurd (hr.symm.trans hnone) (by simp)

/-- A transaction of the Go backend that puts the user. -/
def putRoman : InMemoryTransaction Empty :=
  (put .latest (registeredState Cpp.indexedUsers) InMemoryTransaction.begin (ascii "users")
    (ascii "u1") Cpp.roman).2

/-- The collection in the Go backend, with the user. -/
def romanUsers : State Empty :=
  match InMemoryTransaction.commit [] (registeredState Cpp.indexedUsers) putRoman with
  | .ok r => r.1
  | .error _ => registeredState Cpp.indexedUsers

/-- Every map is visited as it stands. -/
def asItStands : Orders Empty where
  readVersions := []
  stagedErases := []
  stagedPuts := []
  removal _ := []
  filing _ := []
  erases := []
  puts := []

theorem indexConsistent_romanUsers : IndexConsistent romanUsers :=
  indexConsistent_commit (o := asItStands) (t := putRoman)
    (indexConsistent_registeredState Cpp.indexedUsers) rfl rfl rfl

theorem indexConsistent_romanState : Cpp.IndexConsistent romanState := by
  rw [romanState]
  cases h : Cpp.commit Cpp.indexedState (Cpp.putRoman Cpp.indexedState) with
  | error e => exact Cpp.indexConsistent_indexedState
  | ok r =>
    obtain ⟨-, -, indexes, hst, rfl⟩ := commit_ok (Cpp.commit_ok_iff.mp h)
    exact Cpp.indexConsistent_committed Cpp.indexConsistent_indexedState hst

/-- The committed user. -/
def romanRecord : VersionedRecord Empty :=
  { collection := ascii "users", key := ascii "u1", version := 1, document := Cpp.roman }

/-- Both backends hold the user, and no one else. -/
theorem recordAt_roman (k : Key) :
    romanState.recordAt (ascii "users") k = (if k = ascii "u1" then some romanRecord else none) ∧
      romanUsers.recordAt (ascii "users") k =
        if k = ascii "u1" then some romanRecord else none := by
  have hone : ∀ {records : Records Empty},
      records = (∅ : Records Empty).insert (ascii "users")
        ((∅ : OrderedMap Key (VersionedRecord Empty)).insert (ascii "u1") romanRecord) →
      OrderedMap.find₂ records (ascii "users") k =
        if k = ascii "u1" then some romanRecord else none := by
    rintro _ rfl
    rw [OrderedMap.find₂, OrderedMap.find_insert, if_pos rfl, Option.bind_some,
      OrderedMap.find_insert]
    by_cases hk : k = ascii "u1"
    · rw [if_pos hk, if_pos hk]
    · rw [if_neg hk, if_neg hk]
      simp
  exact ⟨hone rfl, hone rfl⟩

/-- The users of the cities from "A" on. -/
def fromA : Query Empty :=
  .indexRange (ascii "by_city") (some { values := [.stringValue (ascii "A")] }) none

/-- The index of the users by their city. -/
def cityIndex : IndexDescriptor := { name := ascii "by_city", fields := [ascii "city"] }

theorem textual_fromA : Textual romanState (ascii "users") cityIndex fromA where
  documents k r h := by
    rw [(recordAt_roman k).1] at h
    by_cases hk : k = ascii "u1"
    · rw [if_pos hk, Option.some_inj] at h
      subst h
      exact ⟨[ascii "Rome"], rfl⟩
    · rw [if_neg hk] at h
      cases h
  values := ⟨[], rfl⟩
  lower b h := by
    obtain rfl := Option.some_inj.mp h
    exact ⟨[ascii "A"], rfl⟩
  upper b h := by cases h

/-- Whether both backends find the user is whether its city is read alike. -/
theorem index_queries_agree_roman :
    (∃ records records',
        (Cpp.query romanState InMemoryTransaction.begin (ascii "users") fromA).1 = .ok records ∧
        (binding.query romanUsers InMemoryTransaction.begin (ascii "users") fromA).1 =
          .ok records' ∧ ∀ r, r ∈ records ↔ r ∈ records') ↔
      (fromA.kind = .indexRange → ∀ k r, romanState.recordAt (ascii "users") k = some r →
        RangeReadAlike cityIndex fromA.lowerBound fromA.upperBound r) :=
  index_queries_agree_iff indexConsistent_romanState indexConsistent_romanUsers
    (fun k => (recordAt_roman k).1.trans (recordAt_roman k).2.symm) rfl rfl rfl rfl textual_fromA
    rfl ⟨rfl, rfl⟩ rfl ⟨rfl, rfl⟩

/-- **Go does not find Rome from "A" on**: "11:" comes before "8:". -/
theorem rome_before_a :
    Cpp.IndexConsistent romanState ∧ IndexConsistent romanUsers ∧
      (∀ k, romanState.recordAt (ascii "users") k = romanUsers.recordAt (ascii "users") k) ∧
      Textual romanState (ascii "users") cityIndex fromA ∧
      ((Cpp.query romanState InMemoryTransaction.begin (ascii "users") fromA).1.toOption.map
        List.length) = some 1 ∧
      ((binding.query romanUsers InMemoryTransaction.begin (ascii "users") fromA).1.toOption.map
        List.length) = some 0 :=
  ⟨indexConsistent_romanState, indexConsistent_romanUsers,
    fun k => (recordAt_roman k).1.trans (recordAt_roman k).2.symm, textual_fromA,
    by decide +kernel, by decide +kernel⟩

end StateSpec.Go
