/-
  RANGES OF AN INDEX in the C++ in-memory backend — `index_key_in_range` against the order of values.

  An `IndexRange` asks for the records whose index values lie between two bounds.  The backend
  compares ENCODED values: texts after "string:", booleans as "bool:false" and "bool:true", and
  integers by their decimal numerals.  The first two follow the order of the values; the numerals do
  not (`compare_encode`): "10" comes before "9", and "-1" before "-2".

  * `compare_texts`      — tuples of one kind compare as their encodings do, unless they first differ
                           in two integers whose numerals compare the other way (`IntegerMisread`);
  * `index_range_exact_iff` — so a range query answers exactly the records between its bounds when, for
                           each record, every bound that is misread is made up for by the other one.
-/
import StateSpec.Lib.Ranges
import StateSpec.Cpp.OwnWrites

set_option linter.unusedSectionVars false

namespace StateSpec

/-- `index_key_in_range` asks for what lies within the bounds, in the order of keys. -/
theorem Memory.keyInRange_iff {δ κ : Type} [Decimal δ] [Memory.EntryKey κ]
    {cmp : κ → κ → Ordering} {key : κ} {lower upper : Option (IndexBound δ)} :
    Memory.keyInRange cmp key lower upper = true ↔
      Within IndexBound.inclusive
        (fun key b => cmp key (Memory.EntryKey.ofParts (Memory.extractQueryIndexKey b.values)))
        key lower upper := by
  unfold Memory.keyInRange
  rw [Bool.and_eq_true, Within, Above, Below]
  refine and_congr ?_ ?_
  · cases lower with
    | none => simp
    | some b => simp
  · cases upper with
    | none => simp
    | some b => simp

end StateSpec

namespace StateSpec.Cpp

open StateSpec.Memory StateSpec.Memory.InMemoryTransaction

variable {δ : Type} [Decimal δ]

/-! ## Values and their order -/

inductive ValueKind where
  | text | integer | flag
deriving DecidableEq

/-- A value that indexes order: a string or timestamp, an integer, a boolean. -/
inductive OrderedValue where
  | text (value : Bytes)
  | integer (value : Int)
  | flag (value : Bool)
deriving DecidableEq

namespace OrderedValue

def kind : OrderedValue → ValueKind
  | .text _ => .text
  | .integer _ => .integer
  | .flag _ => .flag

/-- Where a kind stands among the kinds; only values of one kind are ever compared. -/
def rank : OrderedValue → Nat
  | .text _ => 0
  | .integer _ => 1
  | .flag _ => 2

/-- Texts bytewise, integers numerically, false before true. -/
protected def compare : OrderedValue → OrderedValue → Ordering
  | .text a, .text b => compare a b
  | .integer a, .integer b => compare a b
  | .flag a, .flag b => compare a b
  | a, b => compare a.rank b.rank

instance : Ord OrderedValue := ⟨OrderedValue.compare⟩

/-- Values compare as equal when they are. -/
theorem compare_eq_iff (a b : OrderedValue) : compare a b = .eq ↔ a = b := by
  show OrderedValue.compare a b = .eq ↔ a = b
  cases a <;> cases b <;> simp [OrderedValue.compare, rank]

instance : Std.ReflOrd OrderedValue := ⟨fun {a} => (compare_eq_iff a a).mpr rfl⟩

/-- The value of a field of a document. -/
def ofField : Option (Json δ) → Option OrderedValue
  | some (.string value) => some (.text value)
  | some (.int64 value) => some (.integer value)
  | some (.bool value) => some (.flag value)
  | _ => none

/-- The value a query gives. -/
def ofIndexValue : IndexValue δ → Option OrderedValue
  | .stringValue value | .timestampValue value => some (.text value)
  | .integerValue value => some (.integer value)
  | .booleanValue value => some (.flag value)
  | _ => none

/-- What the backend makes of a value. -/
def encode : OrderedValue → Bytes
  | .text value => ascii "string:" ++ value
  | .integer value => ascii "int:" ++ Bytes.decimalInt value
  | .flag value => ascii "bool:" ++ if value then ascii "true" else ascii "false"

theorem encode_ofField {field : Option (Json δ)} {v : OrderedValue} (h : ofField field = some v) :
    encodeIndexValue field = .ok v.encode := by
  unfold ofField at h
  split at h
  · obtain rfl := Option.some_inj.mp h
    rfl
  · obtain rfl := Option.some_inj.mp h
    rfl
  · obtain rfl := Option.some_inj.mp h
    rfl
  · cases h

theorem encode_ofIndexValue {value : IndexValue δ} {v : OrderedValue}
    (h : ofIndexValue value = some v) : encodeQueryIndexValue value = v.encode := by
  cases value <;> simp only [ofIndexValue, Option.some_inj] at h <;> first
    | cases h; done
    | subst h; rfl

end OrderedValue

open OrderedValue

/-- The index values of a document. -/
def valuesOf (document : Json δ) (d : IndexDescriptor) : Option (List OrderedValue) :=
  d.fields.mapM fun field => ofField (document.find field)

/-- The values of a bound. -/
def boundValues (bound : IndexBound δ) : Option (List OrderedValue) := bound.values.mapM ofIndexValue

theorem extractIndexKey_of_valuesOf {document : Json δ} {d : IndexDescriptor}
    {ws : List OrderedValue} (h : valuesOf document d = some ws) :
    extractIndexKey document d = .ok (ws.map encode) := by
  have hfields : ∀ {fields : List Bytes} {ws : List OrderedValue},
      fields.mapM (fun field => ofField (document.find field)) = some ws →
      fields.mapM (fun field => encodeIndexValue (document.find field)) = .ok (ws.map encode) := by
    intro fields
    induction fields with
    | nil =>
      intro ws h
      obtain rfl : ws = [] := by simpa using h.symm
      rfl
    | cons field fields ih =>
      intro ws h
      simp only [List.mapM_cons, Option.bind_eq_bind, Option.bind_eq_some_iff] at h
      obtain ⟨w, hw, ws', hws', hlist⟩ := h
      obtain rfl : w :: ws' = ws := by simpa using hlist
      rw [List.mapM_cons, encode_ofField hw, ih hws']
      rfl
  exact hfields h

theorem extractQueryIndexKey_of_boundValues {bound : IndexBound δ} {vs : List OrderedValue}
    (h : boundValues bound = some vs) : extractQueryIndexKey bound.values = vs.map encode := by
  have hvalues : ∀ {values : List (IndexValue δ)} {vs : List OrderedValue},
      values.mapM ofIndexValue = some vs → values.map encodeQueryIndexValue = vs.map encode := by
    intro values
    induction values with
    | nil =>
      intro vs h
      obtain rfl : vs = [] := by simpa using h.symm
      rfl
    | cons value values ih =>
      intro vs h
      simp only [List.mapM_cons, Option.bind_eq_bind, Option.bind_eq_some_iff] at h
      obtain ⟨v, hv, vs', hvs', hlist⟩ := h
      obtain rfl : v :: vs' = vs := by simpa using hlist
      rw [List.map_cons, encode_ofIndexValue hv, ih hvs', List.map_cons]
  exact hvalues h

/-! ## How encodings compare -/

/-- Two tuples first differ in two integers whose numerals compare the other way. -/
def IntegerMisread (ws vs : List OrderedValue) : Prop :=
  ∃ pre m n rest rest', ws = pre ++ .integer m :: rest ∧ vs = pre ++ .integer n :: rest' ∧
    compare (Bytes.decimalInt m) (Bytes.decimalInt n) ≠ compare m n

/-- Values of one kind compare as their encodings do, but for integers. -/
theorem compare_encode {a b : OrderedValue} (h : a.kind = b.kind) :
    compare a.encode b.encode = compare a b ∨
      ∃ m n, a = .integer m ∧ b = .integer n ∧
        compare a.encode b.encode = compare (Bytes.decimalInt m) (Bytes.decimalInt n) := by
  cases a with
  | text a =>
    cases b with
    | text b => exact Or.inl (compare_append_left _ a b)
    | integer b => cases h
    | flag b => cases h
  | integer a =>
    cases b with
    | text b => cases h
    | integer b => exact Or.inr ⟨a, b, rfl, rfl, compare_append_left _ _ _⟩
    | flag b => cases h
  | flag a =>
    cases b with
    | text b => cases h
    | integer b => cases h
    | flag b =>
      refine Or.inl ?_
      cases a <;> cases b <;> decide

theorem encode_injective {a b : OrderedValue} (hkind : a.kind = b.kind)
    (h : a.encode = b.encode) : a = b := by
  cases a <;> cases b <;> first | cases hkind; done | skip
  · exact congrArg OrderedValue.text (List.append_cancel_left h)
  · exact congrArg OrderedValue.integer (Bytes.decimalInt_injective (List.append_cancel_left h))
  · rename_i a b
    cases a <;> cases b <;> first | rfl | (exact absurd h (by decide))

/-- **How tuples of the same kinds compare through their encodings.** -/
theorem compare_texts {ws vs : List OrderedValue} (h : ws.map kind = vs.map kind) :
    (compare (ws.map encode) (vs.map encode) = .eq ↔ compare ws vs = .eq) ∧
      (compare (ws.map encode) (vs.map encode) ≠ compare ws vs ↔ IntegerMisread ws vs) := by
  rcases list_cases ws vs with rfl | ⟨v, rest, rfl⟩ | ⟨w, rest, rfl⟩ |
    ⟨pre, a, b, rest, rest', hab, rfl, rfl⟩
  · have hself : compare ws ws = .eq := Std.ReflCmp.compare_self
    have hself' : compare (ws.map encode) (ws.map encode) = .eq := Std.ReflCmp.compare_self
    rw [hself, hself']
    refine ⟨Iff.rfl, iff_of_false (fun hne => hne rfl) ?_⟩
    rintro ⟨pre, m, n, rest, rest', hw, hv, hne⟩
    obtain ⟨heq, -⟩ := List.cons.inj (List.append_cancel_left (hw.symm.trans hv))
    obtain rfl := OrderedValue.integer.inj heq
    exact hne (Std.ReflCmp.compare_self.trans Std.ReflCmp.compare_self.symm)
  · have hlen := congrArg List.length h
    simp at hlen
  · have hlen := congrArg List.length h
    simp at hlen
  · have hkind : a.kind = b.kind := by
      rw [List.map_append, List.map_append] at h
      exact (List.cons.inj (List.append_cancel_left h)).1
    have hne : compare a b ≠ .eq := fun heq => hab ((compare_eq_iff a b).mp heq)
    have hne' : compare a.encode b.encode ≠ .eq := fun heq =>
      hab (encode_injective hkind (Std.compare_eq_iff_eq.mp heq))
    have hvalues := compare_of_diff pre hne rest rest'
    have htexts := compare_of_diff (pre.map encode) hne' (rest.map encode) (rest'.map encode)
    rw [List.map_append, List.map_cons, List.map_append, List.map_cons, hvalues, htexts]
    refine ⟨iff_of_false hne' hne, ?_⟩
    constructor
    · intro hmis
      rcases compare_encode hkind with hsame | ⟨m, n, rfl, rfl, hnumerals⟩
      · exact absurd hsame hmis
      · exact ⟨pre, m, n, rest, rest', rfl, rfl, hnumerals ▸ hmis⟩
    · rintro ⟨pre', m, n, rest₁, rest₂, hw, hv, hmis⟩
      -- the first difference is at one place only
      obtain ⟨rfl, rfl, rfl⟩ : pre = pre' ∧ a = .integer m ∧ b = .integer n := by
        have hmn : OrderedValue.integer m ≠ .integer n := by
          rintro heq
          obtain rfl := OrderedValue.integer.inj heq
          exact hmis (Std.ReflCmp.compare_self.trans Std.ReflCmp.compare_self.symm)
        exact first_difference hab hmn hw hv
      exact fun hsame => hmis ((compare_append_left (ascii "int:") _ _).symm.trans hsame)

/-! ## Range queries -/

/-- How the backend compares a tuple of values with a bound. -/
def byText (ws : List OrderedValue) (bound : IndexBound δ) : Ordering :=
  compare (ws.map encode) (extractQueryIndexKey bound.values)

/-- How the values of a tuple compare with those of a bound. -/
def byValue (ws : List OrderedValue) (bound : IndexBound δ) : Ordering :=
  compare ws ((boundValues bound).getD [])

/-- The index values of a record lie between two bounds. -/
def Between (d : IndexDescriptor) (lower upper : Option (IndexBound δ)) (r : VersionedRecord δ) :
    Prop :=
  ∃ ws, valuesOf r.document d = some ws ∧ Within IndexBound.inclusive byValue ws lower upper

/-- Every document of the collection, and each bound, has one value of the same kinds for each
    field of the index. -/
structure SameKinds (s : State δ) (c : CollectionName) (d : IndexDescriptor)
    (lower upper : Option (IndexBound δ)) (kinds : List ValueKind) : Prop where
  documents : ∀ k r, s.recordAt c k = some r →
    ∃ ws, valuesOf r.document d = some ws ∧ ws.map kind = kinds
  lower : ∀ b, lower = some b → ∃ vs, boundValues b = some vs ∧ vs.map kind = kinds
  upper : ∀ b, upper = some b → ∃ vs, boundValues b = some vs ∧ vs.map kind = kinds

/-- A tuple and a bound first differ in two integers whose numerals compare the other way. -/
def BoundMisread (ws : List OrderedValue) (bound : Option (IndexBound δ)) : Prop :=
  ∃ b vs, bound = some b ∧ boundValues b = some vs ∧ IntegerMisread ws vs

/-- The condition on a record: every bound that is misread for it is made up for by the other. -/
def RangeReadAlike (d : IndexDescriptor) (lower upper : Option (IndexBound δ))
    (r : VersionedRecord δ) : Prop :=
  ∀ ws, valuesOf r.document d = some ws →
    MadeUpFor (BoundMisread ws lower) (BoundMisread ws upper)
      (Above IndexBound.inclusive byValue ws lower) (Below IndexBound.inclusive byValue ws upper)

/-- The transaction has staged nothing. -/
def Idle (t : Tx δ) : Prop := t.puts = ∅ ∧ t.erases = ∅

/-- **What the backend makes of a tuple and a bound of its kinds.** -/
theorem byText_iff {ws : List OrderedValue} {kinds : List ValueKind}
    {bound : Option (IndexBound δ)} (hws : ws.map kind = kinds)
    (hbound : ∀ b, bound = some b → ∃ vs, boundValues b = some vs ∧ vs.map kind = kinds) :
    (∀ b, bound = some b → (byText ws b = .eq ↔ byValue ws b = .eq)) ∧
      (Misread byText byValue ws bound ↔ BoundMisread ws bound) := by
  have hpair : ∀ (b : IndexBound δ) vs, boundValues b = some vs →
      byText ws b = compare (ws.map encode) (vs.map encode) ∧ byValue ws b = compare ws vs := by
    intro b vs hvs
    rw [byText, byValue, extractQueryIndexKey_of_boundValues hvs, hvs, Option.getD_some]
    exact ⟨rfl, rfl⟩
  constructor
  · intro b hb
    obtain ⟨vs, hvs, hkinds⟩ := hbound b hb
    rw [(hpair b vs hvs).1, (hpair b vs hvs).2]
    exact (compare_texts (hws.trans hkinds.symm)).1
  · constructor
    · rintro ⟨b, hb, hne⟩
      obtain ⟨vs, hvs, hkinds⟩ := hbound b hb
      rw [(hpair b vs hvs).1, (hpair b vs hvs).2] at hne
      exact ⟨b, vs, hb, hvs, (compare_texts (hws.trans hkinds.symm)).2.mp hne⟩
    · rintro ⟨b, vs, hb, hvs, hmis⟩
      obtain ⟨vs', hvs', hkinds⟩ := hbound b hb
      obtain rfl := Option.some_inj.mp (hvs.symm.trans hvs')
      refine ⟨b, hb, ?_⟩
      rw [(hpair b vs hvs).1, (hpair b vs hvs).2]
      exact (compare_texts (hws.trans hkinds.symm)).2.mpr hmis

section

variable {s : State δ} {t : Tx δ} {c : CollectionName} {name : Bytes} {d : IndexDescriptor}
  {lower upper : Option (IndexBound δ)} {kinds : List ValueKind}

/-- What an index query answers to a transaction that has staged nothing. -/
theorem mem_indexQuery {q : Query δ} (hs : IndexConsistent s) (hopen : t.isOpen = true)
    (hidle : Idle t) (hindex : isIndexQuery q = true) (hname : q.indexName = some name)
    (hd : descriptorOf s.indexes c name = some d) :
    ∃ records, (query s t c q).1 = .ok records ∧
      ∀ r, r ∈ records ↔ s.recordAt c r.key = some r ∧
        ∃ key, extractIndexKey r.document d = .ok key ∧ matchesIndexKey key q = true := by
  have hnone : t.stagedRecords = [] := by
    rw [stagedRecords, hidle.1]
    rfl
  have hover : ∀ vk, ¬ t.Overlays vk := by
    rintro vk (h | h)
    · rw [hidle.2] at h
      simp at h
    · rw [hidle.1] at h
      simp at h
  obtain ⟨committed, hcommitted⟩ := committedRecords_total s t c (selector q)
  obtain ⟨records, hrecords⟩ : ∃ records, queryRecords s t c (selector q) = .ok records := by
    have hstaged : stagedPart s t c (selector q) = .ok [] := by
      rw [stagedPart, hnone]
      rfl
    exact ⟨_, by rw [queryRecords, hcommitted, hstaged]⟩
  refine ⟨records, by rw [query, if_neg (by simp [hopen]), hrecords], fun r => ?_⟩
  rw [mem_query hrecords]
  have hstaged : ¬ StagedAnswer s t c (selector q) r := by
    intro h
    have hmem := h.1.1
    rw [hnone] at hmem
    exact absurd hmem List.not_mem_nil
  have hmatched : (selector q).matchesRecord r = true := by
    show matchesQuery r q = true
    rw [isIndexQuery] at hindex
    rw [matchesQuery]
    cases hkind : q.kind <;> simp_all
  constructor
  · rintro (⟨hr, hfinds, -, -⟩ | h)
    · obtain ⟨name', d', key, hname', hd', hkey, hmatch⟩ := (findsByIndex_iff hs hr).mp (hfinds hindex)
      obtain rfl : name = name' := Option.some_inj.mp (hname.symm.trans hname')
      rw [(InMemoryState.recordAt_keyed hr).1] at hd'
      obtain rfl := Option.some_inj.mp (hd.symm.trans hd')
      rw [entryKey_eq] at hkey
      exact ⟨hr, key, hkey, hmatch⟩
    · exact absurd h hstaged
  · rintro ⟨hr, key, hkey, hmatch⟩
    refine Or.inl ⟨hr, fun _ => (findsByIndex_iff hs hr).mpr ?_, hover _, hmatched⟩
    refine ⟨name, d, key, hname, ?_, ?_, hmatch⟩
    · rw [(InMemoryState.recordAt_keyed hr).1, hd]
    · rw [entryKey_eq, hkey]

/-- What a range query answers to a transaction that has staged nothing. -/
theorem mem_indexRange (hs : IndexConsistent s) (hopen : t.isOpen = true) (hidle : Idle t)
    (hd : descriptorOf s.indexes c name = some d) (hkinds : SameKinds s c d lower upper kinds) :
    ∃ records, (query s t c (.indexRange name lower upper)).1 = .ok records ∧
      ∀ r, r ∈ records ↔ s.recordAt c r.key = some r ∧
        ∃ ws, valuesOf r.document d = some ws ∧ Within IndexBound.inclusive byText ws lower upper := by
  obtain ⟨records, hrecords, hmem⟩ :=
    mem_indexQuery (q := .indexRange name lower upper) hs hopen hidle rfl rfl hd
  refine ⟨records, hrecords, fun r => (hmem r).trans (and_congr_right fun hr => ?_)⟩
  have hrange : ∀ ws : List OrderedValue,
      matchesIndexKey (ws.map encode) (.indexRange name lower upper : Query δ) = true ↔
        Within IndexBound.inclusive byText ws lower upper := fun ws => keyInRange_iff
  constructor
  · rintro ⟨key, hkey, hmatch⟩
    obtain ⟨ws, hws, -⟩ := hkinds.documents _ r hr
    rw [extractIndexKey_of_valuesOf hws] at hkey
    obtain rfl := Except.ok.inj hkey
    exact ⟨ws, hws, (hrange ws).mp hmatch⟩
  · rintro ⟨ws, hws, hwithin⟩
    exact ⟨ws.map encode, extractIndexKey_of_valuesOf hws, (hrange ws).mpr hwithin⟩

/-- **When a range query answers exactly the records between its bounds.** -/
theorem index_range_exact_iff (hs : IndexConsistent s) (hopen : t.isOpen = true) (hidle : Idle t)
    (hd : descriptorOf s.indexes c name = some d) (hkinds : SameKinds s c d lower upper kinds) :
    (∃ records, (query s t c (.indexRange name lower upper)).1 = .ok records ∧
      ∀ r, r ∈ records ↔ s.recordAt c r.key = some r ∧ Between d lower upper r) ↔
        ∀ k r, s.recordAt c k = some r → RangeReadAlike d lower upper r := by
  obtain ⟨records, hrecords, hmem⟩ := mem_indexRange hs hopen hidle hd hkinds
  -- both sides speak of one committed record at a time
  have hone : ∀ k r, s.recordAt c k = some r → ∀ ws, valuesOf r.document d = some ws →
      ((Within IndexBound.inclusive byText ws lower upper ↔
        Within IndexBound.inclusive byValue ws lower upper) ↔
          MadeUpFor (BoundMisread ws lower) (BoundMisread ws upper)
            (Above IndexBound.inclusive byValue ws lower)
            (Below IndexBound.inclusive byValue ws upper)) := by
    intro k r hr ws hws
    obtain ⟨ws', hws', hwskinds⟩ := hkinds.documents k r hr
    obtain rfl := Option.some_inj.mp (hws.symm.trans hws')
    obtain ⟨hlower, hmisL⟩ := byText_iff hwskinds hkinds.lower
    obtain ⟨hupper, hmisU⟩ := byText_iff hwskinds hkinds.upper
    rw [within_agree_iff hlower hupper, hmisL, hmisU]
  constructor
  · rintro ⟨records', hrecords', hexact⟩ k r hr ws hws
    obtain rfl := Except.ok.inj (hrecords.symm.trans hrecords')
    have hat : s.recordAt c r.key = some r := by rw [(InMemoryState.recordAt_keyed hr).2, hr]
    refine (hone k r hr ws hws).mp ?_
    have hsame := (hmem r).symm.trans (hexact r)
    constructor
    · intro h
      obtain ⟨-, ws', hws', hwithin⟩ := hsame.mp ⟨hat, ws, hws, h⟩
      obtain rfl := Option.some_inj.mp (hws.symm.trans hws')
      exact hwithin
    · intro h
      obtain ⟨-, ws', hws', hwithin⟩ := hsame.mpr ⟨hat, ws, hws, h⟩
      obtain rfl := Option.some_inj.mp (hws.symm.trans hws')
      exact hwithin
  · intro h
    refine ⟨records, hrecords, fun r => (hmem r).trans (and_congr_right fun hr => ?_)⟩
    refine exists_congr fun ws => and_congr_right fun hws => ?_
    exact (hone _ r hr ws hws).mpr (h _ r hr ws hws)

end

/-! ## An item of size ten -/

/-- The index of the items by their size. -/
def sizeIndex : IndexDescriptor := { name := ascii "by_size", fields := [ascii "size"] }

def items : CollectionDescriptor := { name := ascii "items", indexes := [sizeIndex] }

/-- The registered collection, empty. -/
def itemsState : State Empty := register [items] InMemoryState.empty

def itemOfTen : Json Empty := .object [(ascii "size", .int64 10)]

/-- The collection with an item of size ten. -/
def oneItem : State Empty :=
  match commit itemsState (put .first itemsState InMemoryTransaction.begin (ascii "items")
    (ascii "i1") itemOfTen).2 with
  | .ok r => r.1
  | .error _ => itemsState

/-- At least five. -/
def fromFive : Option (IndexBound Empty) := some { values := [.integerValue 5] }

theorem indexConsistent_oneItem : IndexConsistent oneItem := by
  have hempty : IndexConsistent itemsState := indexConsistent_register_empty [items]
  rw [oneItem]
  cases h : commit itemsState (put .first itemsState InMemoryTransaction.begin (ascii "items")
      (ascii "i1") itemOfTen).2 with
  | error e => exact hempty
  | ok r =>
    obtain ⟨-, -, indexes, hst, rfl⟩ := commit_ok (commit_ok_iff.mp h)
    exact indexConsistent_committed hempty hst

theorem sameKinds_oneItem :
    SameKinds oneItem (ascii "items") sizeIndex fromFive none [.integer] where
  documents k r h := by
    have hrecords : oneItem.records = (∅ : Records Empty).insert (ascii "items")
        ((∅ : OrderedMap Key (VersionedRecord Empty)).insert (ascii "i1")
          { collection := ascii "items", key := ascii "i1", version := 1, document := itemOfTen }) := rfl
    rw [InMemoryState.recordAt, OrderedMap.find₂, hrecords, OrderedMap.find_insert, if_pos rfl,
      Option.bind_some, OrderedMap.find_insert] at h
    by_cases hk : k = ascii "i1"
    · rw [if_pos hk, Option.some_inj] at h
      subst h
      exact ⟨[.integer 10], rfl, rfl⟩
    · rw [if_neg hk] at h
      simp at h
  lower b h := by
    obtain rfl := Option.some_inj.mp h
    exact ⟨[.integer 5], rfl, rfl⟩
  upper b h := by cases h

/-- Whether the item is found is whether its size is read as it is. -/
theorem index_range_exact_oneItem :
    (∃ records, (query oneItem InMemoryTransaction.begin (ascii "items")
        (.indexRange (ascii "by_size") fromFive none)).1 = .ok records ∧
      ∀ r, r ∈ records ↔ oneItem.recordAt (ascii "items") r.key = some r ∧
        Between sizeIndex fromFive none r) ↔
      ∀ k r, oneItem.recordAt (ascii "items") k = some r → RangeReadAlike sizeIndex fromFive none r :=
  index_range_exact_iff indexConsistent_oneItem rfl ⟨rfl, rfl⟩ rfl sameKinds_oneItem

/-- **Ten is not found from five on**: the numeral "10" comes before "5". -/
theorem ten_before_five :
    IndexConsistent oneItem ∧
      SameKinds oneItem (ascii "items") sizeIndex fromFive none [.integer] ∧
      (query oneItem InMemoryTransaction.begin (ascii "items")
        (.indexRange (ascii "by_size") fromFive none)).1 = .ok [] ∧
      ∃ r, oneItem.recordAt (ascii "items") (ascii "i1") = some r ∧
        Between sizeIndex fromFive none r := by
  have hanswer : ((query oneItem InMemoryTransaction.begin (ascii "items")
      (.indexRange (ascii "by_size") fromFive none)).1.toOption.map List.length) = some 0 := by
    decide +kernel
  refine ⟨indexConsistent_oneItem, sameKinds_oneItem, ?_, ?_⟩
  · cases h : (query oneItem InMemoryTransaction.begin (ascii "items")
        (.indexRange (ascii "by_size") fromFive none)).1 with
    | error e =>
      rw [h] at hanswer
      cases hanswer
    | ok records =>
      rw [h] at hanswer
      rw [List.length_eq_zero_iff.mp (Option.some_inj.mp hanswer)]
  · refine ⟨_, rfl, [.integer 10], rfl, fun b hb => ?_, fun b hb => by cases hb⟩
    obtain rfl := Option.some_inj.mp hb
    decide

end StateSpec.Cpp
