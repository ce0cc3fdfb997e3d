/-
  THE INDEX OF A LIST — `generator_entity_index_helpers.cpp`: which index of an entity a list goes by.

  1. **Program** — `selectEntityListIndexForSelector` takes the first index that begins with a selector, and
     `selectEntityListIndex` the one whose first fields, as many as possible, stand in braces in a path.  It
     looks for them in the text of the path, while `indexBackedPathSelector` reads the path from brace to brace.
  2. All three are searches for the foremost index (`Foremost`), by the number of their first fields that are
     given: parameters of the path for the two (`selector_foremost`, `selectForSelector_eq_some`), texts in
     braces for the third (`selectEntityListIndex_eq`).
  3. So they take the same index where one is the foremost by both (`indexChoice_iff`), as it is where what
     stands in braces is a parameter (`indexChoice_of_plain`).
-/
import StateSpec.Compiler.Ir
import StateSpec.Compiler.PathParameters
import StateSpec.Lib.Foremost

namespace StateSpec.Compiler

/-! ## The program -/

/-- The first fields of an index, as far as they stand in braces in the path. -/
def bracedPrefix (apiPath : Bytes) (index : IrIndex) : List Bytes :=
  index.fields.takeWhile fun fieldName => decide (placeholder fieldName <:+: apiPath)

/-- `select_entity_list_index`. -/
def selectEntityListIndex (entity : IrEntity) (apiPath : Bytes) : Option IrIndex :=
  match foremost (fun index => (bracedPrefix apiPath index).length) entity.indexes with
  | some selected => some selected
  | none => entity.indexes.head?

/-- `select_entity_list_index_for_selector`. -/
def selectEntityListIndexForSelector (entity : IrEntity) (selector : List Bytes) : Option IrIndex :=
  if selector = [] then none
  else entity.indexes.find? fun index => selector.isPrefixOf index.fields

/-! ## Specification -/

/-- The selector is a run of first fields of an index that are parameters, and none is longer. -/
structure LongestRun (entity : IrEntity) (parameters selector : List Bytes) : Prop where
  run : ∃ index ∈ entity.indexes, selector <+: index.fields
  given : ∀ field ∈ selector, field ∈ parameters
  longest : ∀ index ∈ entity.indexes, ∀ run, run <+: index.fields → (∀ field ∈ run, field ∈ parameters) →
    run.length ≤ selector.length

/-- What `indexBackedPathSelector` chooses for an API, if anything: the longest run, and by it and by the path
    the same index. -/
def ConsistentChoice (entity : IrEntity) (api : IrApi) : Prop :=
  indexBackedPathSelector entity api ≠ [] →
    selectEntityListIndexForSelector entity (indexBackedPathSelector entity api) =
        selectEntityListIndex entity (api.path.getD []) ∧
      LongestRun entity (pathParameterSet api.path) (indexBackedPathSelector entity api)

/-- By how many of its first fields are parameters. -/
def givenFields (api : IrApi) (index : IrIndex) : Nat := (givenPrefix (pathParameterSet api.path) index).length

/-- By how many of its first fields stand in braces in the path. -/
def bracedFields (api : IrApi) (index : IrIndex) : Nat := (bracedPrefix (api.path.getD []) index).length

/-- One index is the foremost, whether its fields have to be parameters or to stand in braces. -/
def ForemostBothWays (entity : IrEntity) (api : IrApi) : Prop :=
  ∃ index, Foremost (givenFields api) entity.indexes index ∧ Foremost (bracedFields api) entity.indexes index

/-! ## The selector -/

section

variable (entity : IrEntity) (api : IrApi)

/-- The loop of `indexBackedPathSelector` keeps the fields of the index that the search has found. -/
theorem selector_foremost : indexBackedPathSelector entity api =
    ((foremost (givenFields api) entity.indexes).map (givenPrefix (pathParameterSet api.path))).getD [] := by
  have hloop : ∀ (indexes : List IrIndex) (selected : List Bytes) (found : Option IrIndex × Nat),
      selected = (found.1.map (givenPrefix (pathParameterSet api.path))).getD [] → found.2 = selected.length →
      indexes.foldl
          (fun selected index =>
            if selected.length < (givenPrefix (pathParameterSet api.path) index).length then
              givenPrefix (pathParameterSet api.path) index
            else selected)
          selected =
        ((indexes.foldl (takeLarger (givenFields api)) found).1.map
          (givenPrefix (pathParameterSet api.path))).getD [] := by
    intro indexes
    induction indexes with
    | nil => exact fun selected found hselected _ => hselected
    | cons index rest ih =>
      intro selected found hselected hlength
      rw [List.foldl_cons, List.foldl_cons]
      by_cases hlonger : selected.length < (givenPrefix (pathParameterSet api.path) index).length
      · have htaken : takeLarger (givenFields api) found index = (some index, givenFields api index) :=
          if_pos (by rw [hlength]; exact hlonger)
        rw [if_pos hlonger, htaken]
        exact ih _ _ rfl rfl
      · have hkept : takeLarger (givenFields api) found index = found :=
          if_neg (by rw [hlength]; exact hlonger)
        rw [if_neg hlonger, hkept]
        exact ih _ _ hselected hlength
  exact hloop entity.indexes [] (none, 0) rfl rfl

theorem exists_foremost (h : indexBackedPathSelector entity api ≠ []) :
    ∃ index, Foremost (givenFields api) entity.indexes index ∧
      indexBackedPathSelector entity api = givenPrefix (pathParameterSet api.path) index := by
  rw [selector_foremost] at h ⊢
  cases hfound : foremost (givenFields api) entity.indexes with
  | none =>
    rw [hfound] at h
    exact absurd rfl h
  | some index => exact ⟨index, foremost_eq_some_iff.mp hfound, rfl⟩

end

section

variable {entity : IrEntity} {api : IrApi}

theorem given_of_mem {parameters : List Bytes} {index : IrIndex} :
    ∀ field ∈ givenPrefix parameters index, field ∈ parameters := by
  intro field hfield
  rw [givenPrefix] at hfield
  have hgiven := List.mem_takeWhile_imp hfield
  exact of_decide_eq_true hgiven

/-- A run of given fields is no longer than that of all of them. -/
theorem run_le_given {parameters run : List Bytes} {index : IrIndex} (hrun : run <+: index.fields)
    (hgiven : ∀ field ∈ run, field ∈ parameters) : run.length ≤ (givenPrefix parameters index).length := by
  obtain ⟨rest, hrest⟩ := hrun
  have hall : ∀ field ∈ run, decide (field ∈ parameters) = true := fun field hfield =>
    decide_eq_true (hgiven field hfield)
  rw [givenPrefix, ← hrest, List.takeWhile_append_of_pos hall, List.length_append]
  omega

/-- The fields of the foremost index are the longest run. -/
theorem longestRun_of_foremost {index : IrIndex} (h : Foremost (givenFields api) entity.indexes index) :
    LongestRun entity (pathParameterSet api.path) (givenPrefix (pathParameterSet api.path) index) where
  run := ⟨index, h.mem, List.takeWhile_prefix _⟩
  given := given_of_mem
  longest := by
    intro other hother run hrun hgiven
    exact Nat.le_trans (run_le_given hrun hgiven) (h.le other hother)

/-- The first index that begins with the fields of the foremost one is that one. -/
theorem selectForSelector_eq_some {index : IrIndex} (h : Foremost (givenFields api) entity.indexes index) :
    selectEntityListIndexForSelector entity (givenPrefix (pathParameterSet api.path) index) = some index := by
  have hne : givenPrefix (pathParameterSet api.path) index ≠ [] := List.length_pos_iff.mp h.positive
  obtain ⟨front, back, hindexes, hfront, -⟩ := h.place
  rw [selectEntityListIndexForSelector, if_neg hne, hindexes, List.find?_append]
  have hbefore : (front.find? fun other =>
      (givenPrefix (pathParameterSet api.path) index).isPrefixOf other.fields) = none := by
    rw [List.find?_eq_none]
    intro other hother hbegins
    -- an index before it that begins so has as many given fields
    have hlong : givenFields api index ≤ givenFields api other :=
      run_le_given (List.isPrefixOf_iff_prefix.mp hbegins) given_of_mem
    have hless := hfront other hother
    omega
  have hitself : (givenPrefix (pathParameterSet api.path) index).isPrefixOf index.fields = true :=
    List.isPrefixOf_iff_prefix.mpr (List.takeWhile_prefix _)
  rw [hbefore, Option.none_or, List.find?_cons, hitself]

/-! ## The path -/

/-- A parameter stands in braces in its path. -/
theorem stands_in_braces {path name : Bytes} (h : name ∈ pathParameters path) : placeholder name <:+: path := by
  induction pathRead path with
  | plain hopen =>
    rw [pathParameters_plain hopen] at h
    cases h
  | unclosed hfront hbehind =>
    rw [pathParameters_unclosed hfront hbehind] at h
    cases h
  | @closed front parameter rest hfront hparameter hrest ih =>
    rw [pathParameters_closed hfront hparameter, List.mem_append] at h
    rcases h with h | h
    · split at h
      · cases h
      · obtain rfl := List.mem_singleton.mp h
        refine ⟨front, rest, ?_⟩
        rw [placeholder_eq]
        simp only [List.append_assoc, List.cons_append, List.nil_append]
    · obtain ⟨before, after, hplace⟩ := ih h
      refine ⟨front ++ byte '\x7b' :: (parameter ++ byte '\x7d' :: before), after, ?_⟩
      rw [← hplace]
      simp only [List.append_assoc, List.cons_append]

/-- Behind a front without the byte, the byte is the one behind the front, or comes later. -/
theorem split_behind {sep : UInt8} {front more before tail : Bytes} (hfront : sep ∉ front)
    (h : front ++ sep :: more = before ++ sep :: tail) :
    (before = front ∧ tail = more) ∨ ∃ middle, before = front ++ sep :: middle ∧ more = middle ++ sep :: tail := by
  rcases List.append_eq_append_iff.mp h with ⟨left, rfl, hleft⟩ | ⟨left, rfl, hleft⟩
  · cases left with
    | nil =>
      obtain ⟨-, rfl⟩ := List.cons.inj hleft
      exact .inl ⟨List.append_nil _, rfl⟩
    | cons ch middle =>
      obtain ⟨rfl, hmore⟩ := List.cons.inj hleft
      exact .inr ⟨middle, rfl, hmore⟩
  · cases left with
    | nil =>
      obtain ⟨-, rfl⟩ := List.cons.inj hleft
      exact .inl ⟨(List.append_nil _).symm, rfl⟩
    | cons ch middle =>
      obtain ⟨rfl, -⟩ := List.cons.inj hleft
      exact absurd (List.mem_append_right _ List.mem_cons_self) hfront

/-- Where braces do not stand within braces, what stands in them is a parameter. -/
theorem parameter_of_placeholder {path name : Bytes}
    (hflat : ∀ parameter ∈ pathParameters path, byte '\x7b' ∉ parameter) (hne : name ≠ [])
    (hname : byte '\x7d' ∉ name) (h : placeholder name <:+: path) : name ∈ pathParameters path := by
  induction pathRead path with
  | @plain path hopen =>
    refine absurd (h.subset ?_) hopen
    rw [placeholder_eq]
    exact List.mem_cons_self
  | @unclosed front behind hfront hbehind =>
    obtain ⟨before, after, hplace⟩ := h
    rw [placeholder_eq] at hplace
    simp only [List.append_assoc, List.cons_append, List.nil_append] at hplace
    refine absurd ?_ hbehind
    rcases split_behind hfront hplace.symm with ⟨-, hsame⟩ | ⟨middle, -, hlater⟩
    · rw [← hsame]
      exact List.mem_append_right _ List.mem_cons_self
    · rw [hlater]
      exact List.mem_append_right _ (List.mem_cons_of_mem _ (List.mem_append_right _ List.mem_cons_self))
  | @closed front parameter rest hfront hparameter hrest ih =>
    rw [pathParameters_closed hfront hparameter] at hflat ⊢
    have hopen : byte '\x7b' ∉ parameter := by
      by_cases hempty : parameter = []
      · rw [hempty]
        exact List.not_mem_nil
      · rw [if_neg hempty] at hflat
        exact hflat parameter List.mem_cons_self
    obtain ⟨before, after, hplace⟩ := h
    rw [placeholder_eq] at hplace
    simp only [List.append_assoc, List.cons_append, List.nil_append] at hplace
    rcases split_behind hfront hplace.symm with ⟨-, hsame⟩ | ⟨middle, -, hlater⟩
    · -- it is this parameter
      rcases split_behind hparameter hsame.symm with ⟨rfl, -⟩ | ⟨middle, rfl, -⟩
      · rw [if_neg hne]
        exact List.mem_append_left _ List.mem_cons_self
      · exact absurd (List.mem_append_right _ List.mem_cons_self) hname
    · -- it stands behind this parameter
      refine List.mem_append_right _ (ih (fun other hother => hflat other (List.mem_append_right _ hother)) ?_)
      rcases List.append_eq_append_iff.mp hlater with ⟨left, rfl, hleft⟩ | ⟨left, rfl, hleft⟩
      · cases left with
        | nil => exact absurd (List.cons.inj hleft).1 (by decide)
        | cons ch left =>
          obtain ⟨-, hrest⟩ := List.cons.inj hleft
          refine ⟨left, after, ?_⟩
          rw [placeholder_eq, hrest]
          simp only [List.append_assoc, List.cons_append, List.nil_append, List.append_eq]
      · cases left with
        | nil => exact absurd (List.cons.inj hleft).1 (by decide)
        | cons ch left =>
          obtain ⟨rfl, -⟩ := List.cons.inj hleft
          exact absurd (List.mem_append_right _ List.mem_cons_self) hopen

/-- What is given stands in braces. -/
theorem given_le_braced (index : IrIndex) : givenFields api index ≤ bracedFields api index := by
  have hrun : givenPrefix (pathParameterSet api.path) index <+: index.fields := List.takeWhile_prefix _
  obtain ⟨rest, hrest⟩ := hrun
  have hall : ∀ field ∈ givenPrefix (pathParameterSet api.path) index,
      decide (placeholder field <:+: api.path.getD []) = true := by
    intro field hfield
    have hgiven := given_of_mem field hfield
    cases hpath : api.path with
    | none =>
      rw [hpath] at hgiven
      cases hgiven
    | some path =>
      rw [hpath] at hgiven
      exact decide_eq_true (stands_in_braces hgiven)
  show (givenPrefix _ index).length ≤ (index.fields.takeWhile _).length
  rw [← hrest, List.takeWhile_append_of_pos hall, List.length_append]
  omega

/-- Where an index is foremost, the search in the text of the path takes it. -/
theorem selectEntityListIndex_eq {index : IrIndex} (h : Foremost (bracedFields api) entity.indexes index) :
    selectEntityListIndex entity (api.path.getD []) = some index := by
  have hfound : foremost (fun index => (bracedPrefix (api.path.getD []) index).length) entity.indexes =
      some index := foremost_eq_some_iff.mpr h
  rw [selectEntityListIndex, hfound]

end

/-- **When the choice is consistent**: when one index is the foremost both ways. -/
theorem indexChoice_iff (entity : IrEntity) (api : IrApi) : ConsistentChoice entity api ↔
    (indexBackedPathSelector entity api ≠ [] → ForemostBothWays entity api) := by
  refine forall_congr' fun hne => ?_
  obtain ⟨index, hindex, hselector⟩ := exists_foremost entity api hne
  rw [hselector, selectForSelector_eq_some hindex]
  constructor
  · rintro ⟨hsame, -⟩
    refine ⟨index, hindex, ?_⟩
    -- the text of the path has what the parameters give, so the search in it finds an index
    cases hfound : foremost (bracedFields api) entity.indexes with
    | none =>
      have hzero := foremost_eq_none_iff.mp hfound index hindex.mem
      have hpositive := hindex.positive
      have hle := @given_le_braced api index
      omega
    | some other =>
      have hother := foremost_eq_some_iff.mp hfound
      rw [selectEntityListIndex_eq hother] at hsame
      obtain rfl := Option.some.inj hsame
      exact hother
  · rintro ⟨other, hother, hbraced⟩
    obtain rfl := hindex.unique hother
    exact ⟨(selectEntityListIndex_eq hbraced).symm, longestRun_of_foremost hindex⟩

/-- It is where no braces of the path stand within braces, and the fields of indexes have names without any. -/
theorem indexChoice_of_plain {entity : IrEntity} {api : IrApi}
    (hflat : ∀ parameter ∈ pathParameterSet api.path, byte '\x7b' ∉ parameter)
    (hfields : ∀ index ∈ entity.indexes, ∀ field ∈ index.fields, field ≠ [] ∧ byte '\x7d' ∉ field) :
    ConsistentChoice entity api := by
  refine (indexChoice_iff entity api).mpr fun hne => ?_
  obtain ⟨index, hindex, -⟩ := exists_foremost entity api hne
  refine ⟨index, hindex, hindex.congr fun other hother => ?_⟩
  refine Nat.le_antisymm (given_le_braced other) (run_le_given (List.takeWhile_prefix _) fun field hfield => ?_)
  rw [bracedPrefix] at hfield
  obtain ⟨hnonempty, hclose⟩ := hfields other hother field ((List.takeWhile_prefix _).subset hfield)
  have htest := List.mem_takeWhile_imp hfield
  have hbraced : placeholder field <:+: api.path.getD [] := of_decide_eq_true htest
  cases hpath : api.path with
  | none =>
    -- there is no path, and so no index is the foremost
    have hnothing : givenPrefix (pathParameterSet api.path) index = [] := by
      rw [hpath]
      exact List.eq_nil_iff_forall_not_mem.mpr fun field hfield => absurd (given_of_mem field hfield) List.not_mem_nil
    have hpositive : 0 < (givenPrefix (pathParameterSet api.path) index).length := hindex.positive
    rw [hnothing] at hpositive
    exact absurd hpositive (Nat.lt_irrefl 0)
  | some path =>
    rw [hpath] at hflat hbraced
    exact parameter_of_placeholder hflat hnonempty hclose hbraced

/-- An entity with an index by each of two fields. -/
def indexedEntity : IrEntity :=
  { name := ascii "E", keyFields := [], fields := []
    indexes := [⟨ascii "by_b", [ascii "b"], false⟩, ⟨ascii "by_c", [ascii "c"], false⟩] }

/-- A list on a path whose second parameter has a brace in its name. -/
def nestedList : IrApi :=
  { name := ascii "ListEs", method := some (ascii "GET"), path := some (ascii "/\x7bc\x7d/\x7ba\x7bb\x7d")
    input := none, output := none, error := none, startsWorkflow := none, enqueues := none, entity := none
    repositoryOperation := none, listSelector := [] }

/-- Its text has a field in braces that is not a parameter. -/
theorem nested_disagrees : ¬ ∀ entity api, ConsistentChoice entity api := by
  intro hall
  have hchoice := (hall indexedEntity nestedList (by decide +kernel)).1
  have hnames := congrArg (Option.map IrIndex.name) hchoice
  revert hnames
  decide +kernel

end StateSpec.Compiler
