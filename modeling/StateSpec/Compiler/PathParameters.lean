/-
  PATH PARAMETERS — what the compiler takes for a parameter of a path, and what the generated handlers find.

  The compiler reads a path from brace to brace (`pathParameters`); the handlers cut it at its slashes and take
  the parts that are one pair of braces (`extractApiPathParameters`).  The two agree on a path when its
  parameters are just its parts in braces (`parametersAgree_iff`).

  1. `bySlashes`: a path is its first part, a slash and a path, or has no slash.
  2. `pathParameters_slash`: reading from brace to brace goes part by part, unless a parameter has a slash.
  3. `extract_of_alone`: where every parameter is a part in braces, the handlers find what fills those parts.
-/
import StateSpec.Compiler.Validator
import StateSpec.Generated.Handlers

namespace StateSpec.Compiler

open Generated (splitApiPath parameterName extractApiPathParameters)

/-- The path with a value in the place of each parameter. -/
def fillParametersFrom (values : Bytes → Bytes) : Nat → Bytes → Bytes
  | 0, path => path
  | fuel + 1, path =>
    match Bytes.splitOnce (byte '\x7b') path with
    | none => path
    | some (front, behind) =>
      match Bytes.splitOnce (byte '\x7d') behind with
      | none => path
      | some (parameter, rest) =>
        front ++ (if parameter = [] then placeholder [] else values parameter) ++
          fillParametersFrom values fuel rest

def fillParameters (values : Bytes → Bytes) (path : Bytes) : Bytes :=
  fillParametersFrom values (path.length + 1) path

/-- The parts of a path between its slashes. -/
def pathParts (path : Bytes) : List Bytes := path.splitOn (byte '/')

/-- Values that stay in their part of the path. -/
def FitsPath (path : Bytes) (values : Bytes → Bytes) : Prop :=
  ∀ name ∈ pathParameters path, values name ≠ [] ∧ byte '/' ∉ values name

/-- The handlers find the parameters of the path, with their values, and no others. -/
def ParametersAgree (path : Bytes) : Prop :=
  ∀ values, FitsPath path values → ∀ name,
    (extractApiPathParameters path (fillParameters values path)).lookup name =
      if name ∈ pathParameters path then some (values name) else none

/-! ## From brace to brace -/

/-- A path as the compiler reads it. -/
inductive PathRead : Bytes → Prop
  | plain {path : Bytes} : byte '\x7b' ∉ path → PathRead path
  | unclosed {front behind : Bytes} : byte '\x7b' ∉ front → byte '\x7d' ∉ behind →
      PathRead (front ++ byte '\x7b' :: behind)
  | closed {front parameter rest : Bytes} : byte '\x7b' ∉ front → byte '\x7d' ∉ parameter → PathRead rest →
      PathRead (front ++ byte '\x7b' :: (parameter ++ byte '\x7d' :: rest))

theorem splitOnce_none {sep : UInt8} {s : Bytes} (h : sep ∉ s) : Bytes.splitOnce sep s = none := by
  rcases hcut : Bytes.splitOnce sep s with _ | ⟨left, right⟩
  · rfl
  · obtain ⟨rfl, -⟩ := Bytes.splitOnce_sound hcut
    exact absurd (List.mem_append_right _ List.mem_cons_self) h

theorem exists_splitOnce {sep : UInt8} {s : Bytes} (h : sep ∈ s) :
    ∃ left right, s = left ++ sep :: right ∧ sep ∉ left := by
  induction s with
  | nil => cases h
  | cons b rest ih =>
    by_cases hb : b = sep
    · exact ⟨[], rest, by rw [hb]; rfl, List.not_mem_nil⟩
    · obtain ⟨left, right, rfl, hleft⟩ := ih ((List.mem_cons.mp h).resolve_left (Ne.symm hb))
      refine ⟨b :: left, right, rfl, ?_⟩
      rw [List.mem_cons, not_or]
      exact ⟨Ne.symm hb, hleft⟩

theorem pathRead (path : Bytes) : PathRead path := by
  induction hn : path.length using Nat.strong_induction_on generalizing path with
  | _ n ih =>
    by_cases hopen : byte '\x7b' ∈ path
    · obtain ⟨front, behind, rfl, hfront⟩ := exists_splitOnce hopen
      by_cases hclose : byte '\x7d' ∈ behind
      · obtain ⟨parameter, rest, rfl, hparameter⟩ := exists_splitOnce hclose
        refine .closed hfront hparameter (ih rest.length ?_ rest rfl)
        simp only [List.length_append, List.length_cons] at hn
        omega
      · exact .unclosed hfront hclose
    · exact .plain hopen

/-- Any fuel that covers the path will do. -/
theorem pathParametersFrom_fuel {path : Bytes} {fuel : Nat} (h : path.length < fuel) :
    pathParametersFrom fuel path = pathParameters path := by
  unfold pathParameters
  induction pathRead path generalizing fuel with
  | plain hopen =>
    obtain ⟨fuel, rfl⟩ : ∃ n, fuel = n + 1 := ⟨fuel - 1, by omega⟩
    simp only [pathParametersFrom, splitOnce_none hopen]
  | unclosed hfront hbehind =>
    obtain ⟨fuel, rfl⟩ : ∃ n, fuel = n + 1 := ⟨fuel - 1, by omega⟩
    simp only [pathParametersFrom, Bytes.splitOnce_glue _ hfront, splitOnce_none hbehind]
  | @closed front parameter rest hfront hparameter hrest ih =>
    obtain ⟨fuel, rfl⟩ : ∃ n, fuel = n + 1 := ⟨fuel - 1, by omega⟩
    simp only [List.length_append, List.length_cons] at h
    simp only [pathParametersFrom, Bytes.splitOnce_glue _ hfront, Bytes.splitOnce_glue _ hparameter]
    have hlong : rest.length < (front ++ byte '\x7b' :: (parameter ++ byte '\x7d' :: rest)).length := by
      simp only [List.length_append, List.length_cons]
      omega
    rw [ih (by omega), ih hlong]

theorem fillParametersFrom_fuel (values : Bytes → Bytes) {path : Bytes} {fuel : Nat}
    (h : path.length < fuel) : fillParametersFrom values fuel path = fillParameters values path := by
  unfold fillParameters
  induction pathRead path generalizing fuel with
  | plain hopen =>
    obtain ⟨fuel, rfl⟩ : ∃ n, fuel = n + 1 := ⟨fuel - 1, by omega⟩
    simp only [fillParametersFrom, splitOnce_none hopen]
  | unclosed hfront hbehind =>
    obtain ⟨fuel, rfl⟩ : ∃ n, fuel = n + 1 := ⟨fuel - 1, by omega⟩
    simp only [fillParametersFrom, Bytes.splitOnce_glue _ hfront, splitOnce_none hbehind]
  | @closed front parameter rest hfront hparameter hrest ih =>
    obtain ⟨fuel, rfl⟩ : ∃ n, fuel = n + 1 := ⟨fuel - 1, by omega⟩
    simp only [List.length_append, List.length_cons] at h
    simp only [fillParametersFrom, Bytes.splitOnce_glue _ hfront, Bytes.splitOnce_glue _ hparameter]
    have hlong : rest.length < (front ++ byte '\x7b' :: (parameter ++ byte '\x7d' :: rest)).length := by
      simp only [List.length_append, List.length_cons]
      omega
    rw [ih (by omega), ih hlong]

section Reading

variable {front parameter behind rest : Bytes} (values : Bytes → Bytes)

theorem pathParameters_plain (h : byte '\x7b' ∉ front) : pathParameters front = [] := by
  simp only [pathParameters, pathParametersFrom, splitOnce_none h]

theorem fillParameters_plain (h : byte '\x7b' ∉ front) : fillParameters values front = front := by
  simp only [fillParameters, fillParametersFrom, splitOnce_none h]

theorem pathParameters_unclosed (hfront : byte '\x7b' ∉ front) (hbehind : byte '\x7d' ∉ behind) :
    pathParameters (front ++ byte '\x7b' :: behind) = [] := by
  simp only [pathParameters, pathParametersFrom, Bytes.splitOnce_glue _ hfront, splitOnce_none hbehind]

theorem fillParameters_unclosed (hfront : byte '\x7b' ∉ front) (hbehind : byte '\x7d' ∉ behind) :
    fillParameters values (front ++ byte '\x7b' :: behind) = front ++ byte '\x7b' :: behind := by
  simp only [fillParameters, fillParametersFrom, Bytes.splitOnce_glue _ hfront, splitOnce_none hbehind]

theorem pathParameters_closed (hfront : byte '\x7b' ∉ front) (hparameter : byte '\x7d' ∉ parameter) :
    pathParameters (front ++ byte '\x7b' :: (parameter ++ byte '\x7d' :: rest)) =
      (if parameter = [] then [] else [parameter]) ++ pathParameters rest := by
  rw [pathParameters, pathParametersFrom]
  simp only [Bytes.splitOnce_glue _ hfront, Bytes.splitOnce_glue _ hparameter]
  rw [pathParametersFrom_fuel (by simp only [List.length_append, List.length_cons]; omega)]
  split
  · rfl
  · rfl

theorem fillParameters_closed (hfront : byte '\x7b' ∉ front) (hparameter : byte '\x7d' ∉ parameter) :
    fillParameters values (front ++ byte '\x7b' :: (parameter ++ byte '\x7d' :: rest)) =
      front ++ (if parameter = [] then placeholder [] else values parameter) ++
        fillParameters values rest := by
  rw [fillParameters, fillParametersFrom]
  simp only [Bytes.splitOnce_glue _ hfront, Bytes.splitOnce_glue _ hparameter]
  rw [fillParametersFrom_fuel values (by simp only [List.length_append, List.length_cons]; omega)]

end Reading

/-- Parameters are not empty and have no closing brace. -/
theorem parameter_shape {path name : Bytes} (h : name ∈ pathParameters path) :
    name ≠ [] ∧ byte '\x7d' ∉ name := by
  induction pathRead path with
  | plain hopen =>
    rw [pathParameters_plain hopen] at h
    cases h
  | unclosed hfront hbehind =>
    rw [pathParameters_unclosed hfront hbehind] at h
    cases h
  | closed hfront hparameter hrest ih =>
    rw [pathParameters_closed hfront hparameter, List.mem_append] at h
    rcases h with h | h
    · split at h
      · cases h
      · rename_i hne
        obtain rfl := List.mem_singleton.mp h
        exact ⟨hne, hparameter⟩
    · exact ih h

/-- A front without braces is not read. -/
theorem pathParameters_front {front : Bytes} (hfront : byte '\x7b' ∉ front) (path : Bytes) :
    pathParameters (front ++ path) = pathParameters path := by
  cases pathRead path with
  | plain hopen =>
    rw [pathParameters_plain hopen, pathParameters_plain]
    rw [List.mem_append, not_or]
    exact ⟨hfront, hopen⟩
  | @unclosed front' behind hfront' hbehind =>
    have hboth : byte '\x7b' ∉ front ++ front' := by
      rw [List.mem_append, not_or]
      exact ⟨hfront, hfront'⟩
    rw [← List.append_assoc, pathParameters_unclosed hboth hbehind, pathParameters_unclosed hfront' hbehind]
  | @closed front' parameter rest hfront' hparameter hrest =>
    have hboth : byte '\x7b' ∉ front ++ front' := by
      rw [List.mem_append, not_or]
      exact ⟨hfront, hfront'⟩
    rw [← List.append_assoc, pathParameters_closed hboth hparameter,
      pathParameters_closed hfront' hparameter]

theorem fillParameters_front (values : Bytes → Bytes) {front : Bytes} (hfront : byte '\x7b' ∉ front)
    (path : Bytes) : fillParameters values (front ++ path) = front ++ fillParameters values path := by
  cases pathRead path with
  | plain hopen =>
    rw [fillParameters_plain values hopen, fillParameters_plain]
    rw [List.mem_append, not_or]
    exact ⟨hfront, hopen⟩
  | @unclosed front' behind hfront' hbehind =>
    have hboth : byte '\x7b' ∉ front ++ front' := by
      rw [List.mem_append, not_or]
      exact ⟨hfront, hfront'⟩
    rw [← List.append_assoc, fillParameters_unclosed values hboth hbehind,
      fillParameters_unclosed values hfront' hbehind, List.append_assoc]
  | @closed front' parameter rest hfront' hparameter hrest =>
    have hboth : byte '\x7b' ∉ front ++ front' := by
      rw [List.mem_append, not_or]
      exact ⟨hfront, hfront'⟩
    rw [← List.append_assoc, fillParameters_closed values hboth hparameter,
      fillParameters_closed values hfront' hparameter]
    simp only [List.append_assoc]

/-! ## Part by part -/

/-- A path is its first part, a slash and a path, or has no slash. -/
theorem bySlashes {motive : Bytes → Prop} (part : ∀ path, byte '/' ∉ path → motive path)
    (slash : ∀ front rest, byte '/' ∉ front → motive rest → motive (front ++ byte '/' :: rest))
    (path : Bytes) : motive path := by
  induction hn : path.length using Nat.strong_induction_on generalizing path with
  | _ n ih =>
    by_cases hslash : byte '/' ∈ path
    · obtain ⟨front, rest, rfl, hfront⟩ := exists_splitOnce hslash
      refine slash front rest hfront (ih rest.length ?_ rest rfl)
      simp only [List.length_append, List.length_cons] at hn
      omega
    · exact part path hslash

theorem pathParts_part {path : Bytes} (h : byte '/' ∉ path) : pathParts path = [path] :=
  List.splitOn_eq_singleton h

theorem pathParts_slash {front : Bytes} (h : byte '/' ∉ front) (rest : Bytes) :
    pathParts (front ++ byte '/' :: rest) = front :: pathParts rest :=
  List.splitOn_append_cons_self_of_not_mem h rest

theorem slash_not_mem_part {path part : Bytes} (h : part ∈ pathParts path) : byte '/' ∉ part := by
  induction path using bySlashes with
  | part path hpath =>
    rw [pathParts_part hpath] at h
    obtain rfl := List.mem_singleton.mp h
    exact hpath
  | slash front rest hfront ih =>
    rw [pathParts_slash hfront, List.mem_cons] at h
    rcases h with rfl | h
    · exact hfront
    · exact ih h

/-- Where no parameter has a slash, the first part is read and filled by itself. -/
theorem pathParameters_slash (values : Bytes → Bytes) {front rest : Bytes}
    (h : ∀ name ∈ pathParameters (front ++ byte '/' :: rest), byte '/' ∉ name) :
    pathParameters (front ++ byte '/' :: rest) = pathParameters front ++ pathParameters rest ∧
      fillParameters values (front ++ byte '/' :: rest) =
        fillParameters values front ++ byte '/' :: fillParameters values rest := by
  have hbrace : byte '\x7b' ∉ [byte '/'] := by decide
  have hskip : pathParameters (byte '/' :: rest) = pathParameters rest := pathParameters_front hbrace rest
  have hfill : fillParameters values (byte '/' :: rest) = byte '/' :: fillParameters values rest :=
    fillParameters_front values hbrace rest
  induction pathRead front with
  | plain hopen =>
    rw [pathParameters_front hopen, fillParameters_front values hopen, pathParameters_plain hopen,
      fillParameters_plain values hopen, hskip, hfill]
    exact ⟨rfl, rfl⟩
  | @unclosed front behind hfront hbehind =>
    rw [pathParameters_unclosed hfront hbehind, fillParameters_unclosed values hfront hbehind]
    have hassoc : front ++ byte '\x7b' :: behind ++ byte '/' :: rest =
        front ++ byte '\x7b' :: (behind ++ byte '/' :: rest) := by
      rw [List.append_assoc, List.cons_append]
    rw [hassoc] at h ⊢
    by_cases hclose : byte '\x7d' ∈ rest
    · -- the brace would be closed behind the slash
      obtain ⟨name, rest, rfl, hname⟩ := exists_splitOnce hclose
      have hlong : byte '\x7d' ∉ behind ++ byte '/' :: name := by
        rw [List.mem_append, List.mem_cons, not_or, not_or]
        exact ⟨hbehind, by decide, hname⟩
      have hassoc : behind ++ byte '/' :: (name ++ byte '\x7d' :: rest) =
          (behind ++ byte '/' :: name) ++ byte '\x7d' :: rest := by
        rw [List.append_assoc, List.cons_append]
      rw [hassoc, pathParameters_closed hfront hlong] at h
      rw [if_neg (List.append_ne_nil_of_right_ne_nil behind (List.cons_ne_nil _ _))] at h
      have hnone := h _ (List.mem_append_left _ List.mem_cons_self)
      exact absurd (List.mem_append_right behind List.mem_cons_self) hnone
    · have hboth : byte '\x7d' ∉ behind ++ byte '/' :: rest := by
        rw [List.mem_append, List.mem_cons, not_or, not_or]
        exact ⟨hbehind, by decide, hclose⟩
      have hnone : pathParameters rest = [] ∧ fillParameters values rest = rest := by
        cases pathRead rest with
        | plain hopen => exact ⟨pathParameters_plain hopen, fillParameters_plain values hopen⟩
        | unclosed hfront hbehind =>
          exact ⟨pathParameters_unclosed hfront hbehind, fillParameters_unclosed values hfront hbehind⟩
        | closed hfront hparameter hrest =>
          simp at hclose
      rw [pathParameters_unclosed hfront hboth, fillParameters_unclosed values hfront hboth, hnone.1,
        hnone.2, hassoc]
      exact ⟨rfl, rfl⟩
  | @closed front parameter behind hfront hparameter hrest ih =>
    have hassoc : front ++ byte '\x7b' :: (parameter ++ byte '\x7d' :: behind) ++ byte '/' :: rest =
        front ++ byte '\x7b' :: (parameter ++ byte '\x7d' :: (behind ++ byte '/' :: rest)) := by
      simp only [List.append_assoc, List.cons_append]
    rw [hassoc, pathParameters_closed hfront hparameter] at h
    obtain ⟨hparameters, hfilled⟩ := ih fun name hname => h name (List.mem_append_right _ hname)
    rw [hassoc, pathParameters_closed hfront hparameter, pathParameters_closed hfront hparameter,
      fillParameters_closed values hfront hparameter, fillParameters_closed values hfront hparameter,
      hparameters, hfilled]
    simp only [List.append_assoc, and_self]

theorem pathParameters_parts {path : Bytes} (h : ∀ name ∈ pathParameters path, byte '/' ∉ name) :
    pathParameters path = (pathParts path).flatMap pathParameters := by
  induction path using bySlashes with
  | part path hpath => rw [pathParts_part hpath, List.flatMap_singleton]
  | slash front rest hfront ih =>
    obtain ⟨hread, -⟩ := pathParameters_slash id h
    rw [hread] at h
    rw [hread, pathParts_slash hfront, List.flatMap_cons,
      ← ih fun name hname => h name (List.mem_append_right _ hname)]

theorem slash_not_mem_fill {values : Bytes → Bytes} {part : Bytes} (hpart : byte '/' ∉ part)
    (hvalues : FitsPath part values) : byte '/' ∉ fillParameters values part := by
  induction pathRead part with
  | plain hopen =>
    rw [fillParameters_plain values hopen]
    exact hpart
  | unclosed hfront hbehind =>
    rw [fillParameters_unclosed values hfront hbehind]
    exact hpart
  | @closed front parameter rest hfront hparameter hrest ih =>
    rw [FitsPath, pathParameters_closed hfront hparameter, List.forall_mem_append] at hvalues
    simp only [List.mem_append, List.mem_cons, not_or] at hpart
    rw [fillParameters_closed values hfront hparameter, List.mem_append, List.mem_append, not_or, not_or]
    refine ⟨⟨hpart.1, ?_⟩, ih hpart.2.2.2.2 hvalues.2⟩
    split
    · decide
    · rename_i hne
      rw [if_neg hne] at hvalues
      exact (hvalues.1 parameter List.mem_cons_self).2

theorem fillParameters_eq_nil {values : Bytes → Bytes} {part : Bytes} (hvalues : FitsPath part values) :
    fillParameters values part = [] ↔ part = [] := by
  cases pathRead part with
  | plain hopen => rw [fillParameters_plain values hopen]
  | unclosed hfront hbehind => rw [fillParameters_unclosed values hfront hbehind]
  | @closed front parameter rest hfront hparameter hrest =>
    rw [FitsPath, pathParameters_closed hfront hparameter, List.forall_mem_append] at hvalues
    have hvalue : (if parameter = [] then placeholder [] else values parameter) ≠ [] := by
      split
      · decide
      · rename_i hne
        rw [if_neg hne] at hvalues
        exact (hvalues.1 parameter List.mem_cons_self).1
    rw [fillParameters_closed values hfront hparameter]
    simp [hvalue]

theorem pathParts_fill {values : Bytes → Bytes} {path : Bytes}
    (h : ∀ name ∈ pathParameters path, byte '/' ∉ name) (hvalues : FitsPath path values) :
    pathParts (fillParameters values path) = (pathParts path).map (fillParameters values) := by
  induction path using bySlashes with
  | part path hpath =>
    rw [pathParts_part hpath, pathParts_part (slash_not_mem_fill hpath hvalues), List.map_singleton]
  | slash front rest hfront ih =>
    obtain ⟨hread, hfill⟩ := pathParameters_slash values h
    rw [hread] at h
    rw [FitsPath, hread, List.forall_mem_append] at hvalues
    rw [hfill, pathParts_slash (slash_not_mem_fill hfront hvalues.1), pathParts_slash hfront, List.map_cons,
      ih (fun name hname => h name (List.mem_append_right _ hname)) hvalues.2]

/-! ## Parts in braces -/

theorem placeholder_eq (name : Bytes) :
    placeholder name = [] ++ byte '\x7b' :: (name ++ byte '\x7d' :: []) := by
  rw [placeholder, List.append_assoc]
  rfl

theorem placeholder_inj {name name' : Bytes} (h : placeholder name = placeholder name') : name = name' := by
  unfold placeholder at h
  exact List.append_cancel_left (List.append_cancel_right h)

theorem fillParameters_placeholder (values : Bytes → Bytes) {name : Bytes} (hne : name ≠ [])
    (hclose : byte '\x7d' ∉ name) : fillParameters values (placeholder name) = values name := by
  rw [placeholder_eq, fillParameters_closed values List.not_mem_nil hclose, if_neg hne]
  exact List.append_nil _

/-- The handlers' parameters are the parts in braces, with something between them. -/
theorem parameterName_eq_some {part name : Bytes} :
    parameterName part = some name ↔ name ≠ [] ∧ part = placeholder name := by
  unfold parameterName
  constructor
  · intro h
    split at h
    · rename_i hshape
      obtain ⟨hlength, hhead, hlast⟩ := hshape
      rcases part with _ | ⟨first, tail⟩
      · cases hhead
      obtain rfl : first = 123 := Option.some.inj hhead
      have htail : tail ≠ [] := by
        rintro rfl
        simp at hlength
      rw [List.getLast?_cons_of_ne_nil htail, List.getLast?_eq_some_getLast htail] at hlast
      have hsplit := List.dropLast_append_getLast htail
      rw [Option.some.inj hlast] at hsplit
      have hname : tail.dropLast = name := Option.some.inj h
      rw [hname] at hsplit
      refine ⟨?_, ?_⟩
      · rintro rfl
        rw [← hsplit] at hlength
        simp at hlength
      · rw [placeholder_eq, ← hsplit]
        rfl
    · cases h
  · rintro ⟨hne, rfl⟩
    have hpos := List.length_pos_iff.mpr hne
    rw [placeholder_eq, if_pos]
    · simp [byte]
    · refine ⟨?_, rfl, ?_⟩
      · simp only [List.nil_append, List.length_cons, List.length_append, List.length_nil]
        omega
      · show ((123 :: name) ++ [125]).getLast? = some 125
        exact List.getLast?_concat

/-- Every parameter is a part in braces. -/
def Alone (path : Bytes) : Prop := ∀ name ∈ pathParameters path, placeholder name ∈ pathParts path

theorem Alone.no_slash {path : Bytes} (h : Alone path) : ∀ name ∈ pathParameters path, byte '/' ∉ name := by
  intro name hname hslash
  refine slash_not_mem_part (h name hname) ?_
  rw [placeholder, List.mem_append, List.mem_append]
  exact .inl (.inr hslash)

/-- What the handlers find: the names of the parts in braces, with what fills them. -/
theorem extract_of_alone {path : Bytes} (h : Alone path) {values : Bytes → Bytes}
    (hvalues : FitsPath path values) :
    extractApiPathParameters path (fillParameters values path) =
      ((pathParts path).filter fun part => !part.isEmpty).filterMap fun part =>
        (parameterName part).map fun name => (name, fillParameters values part) := by
  have hparts := pathParts_fill h.no_slash hvalues
  have hfilter : ((pathParts path).map (fillParameters values)).filter (fun part => !part.isEmpty) =
      ((pathParts path).filter fun part => !part.isEmpty).map (fillParameters values) := by
    rw [List.filter_map]
    congr 1
    refine List.filter_congr fun part hpart => ?_
    have hfits : FitsPath part values := by
      intro name hname
      refine hvalues name ?_
      rw [pathParameters_parts h.no_slash]
      exact List.mem_flatMap.mpr ⟨part, hpart, hname⟩
    have hempty := fillParameters_eq_nil hfits
    simp only [Function.comp_apply, ← List.isEmpty_iff] at hempty ⊢
    rw [Bool.eq_iff_iff.mpr hempty]
  have hsplit : splitApiPath (fillParameters values path) =
      ((pathParts path).filter fun part => !part.isEmpty).map (fillParameters values) := by
    rw [← hfilter, ← hparts]
    rfl
  rw [extractApiPathParameters, hsplit]
  show (List.zip ((pathParts path).filter fun part => !part.isEmpty) _).filterMap _ = _
  rw [← List.map_prod_left_eq_zip, List.filterMap_map]
  rfl

/-- Looking a name up finds what fills its part, if it has one. -/
theorem lookup_parts {parts : List Bytes} {fill : Bytes → Bytes} {name : Bytes} (hne : name ≠ []) :
    (parts.filterMap fun part => (parameterName part).map fun name => (name, fill part)).lookup name =
      if placeholder name ∈ parts then some (fill (placeholder name)) else none := by
  induction parts with
  | nil => rfl
  | cons part rest ih =>
    rcases hname : parameterName part with _ | found
    · have hother : placeholder name ≠ part := by
        rintro rfl
        rw [parameterName_eq_some.mpr ⟨hne, rfl⟩] at hname
        cases hname
      rw [List.filterMap_cons_none (by rw [hname]; rfl), ih]
      simp only [List.mem_cons, hother, false_or]
    · obtain ⟨hfound, rfl⟩ := parameterName_eq_some.mp hname
      rw [List.filterMap_cons_some (by rw [hname]; rfl), List.lookup_cons]
      by_cases hsame : name = found
      · subst hsame
        simp
      · have hother : placeholder name ≠ placeholder found := fun heq => hsame (placeholder_inj heq)
        simp only [beq_eq_false_iff_ne.mpr hsame, List.mem_cons, hother, false_or]
        exact ih

/-- What the handlers find in a path is a part in braces. -/
theorem part_of_lookup {path actual name value : Bytes}
    (h : (extractApiPathParameters path actual).lookup name = some value) :
    placeholder name ∈ pathParts path := by
  have hmem : (name, value) ∈ extractApiPathParameters path actual := by
    rw [List.lookup_eq_some_iff] at h
    obtain ⟨before, after, hlist, -⟩ := h
    rw [hlist]
    exact List.mem_append_right _ List.mem_cons_self
  obtain ⟨part, hpart, hfound⟩ := List.mem_filterMap.mp hmem
  obtain ⟨found, hname, heq⟩ := Option.map_eq_some_iff.mp hfound
  cases heq
  have hbraces := (parameterName_eq_some.mp hname).2
  have hsplit := (List.of_mem_zip (show (part.1, part.2) ∈ _ from hpart)).1
  rw [hbraces] at hsplit
  exact List.mem_of_mem_filter hsplit

/-- **Where the compiler and the handlers agree**: on the paths whose parameters are just their parts in
    braces. -/
theorem parametersAgree_iff {path : Bytes} : ParametersAgree path ↔
    ∀ name, name ≠ [] → (placeholder name ∈ pathParts path ↔ name ∈ pathParameters path) := by
  have hlookup : ∀ (h : Alone path) {values : Bytes → Bytes}, FitsPath path values → ∀ {name : Bytes},
      name ≠ [] → (extractApiPathParameters path (fillParameters values path)).lookup name =
        if placeholder name ∈ pathParts path then some (fillParameters values (placeholder name))
        else none := by
    intro h values hvalues name hne
    have hpart : placeholder name ∈ (pathParts path).filter (fun part => !part.isEmpty) ↔
        placeholder name ∈ pathParts path := by
      rw [List.mem_filter]
      exact and_iff_left (by simp [placeholder, ascii])
    rw [extract_of_alone h hvalues, lookup_parts hne]
    simp only [hpart]
  constructor
  · intro hagree
    have hfits : FitsPath path fun _ => ascii "x" :=
      fun _ _ => ⟨List.cons_ne_nil _ _, by simp [ascii, byte]⟩
    have halone : Alone path := by
      intro name hname
      have hfound := hagree _ hfits name
      rw [if_pos hname] at hfound
      exact part_of_lookup hfound
    intro name hne
    refine ⟨fun hpart => ?_, halone name⟩
    have hfound := hagree _ hfits name
    rw [hlookup halone hfits hne, if_pos hpart] at hfound
    by_contra hname
    rw [if_neg hname] at hfound
    cases hfound
  · intro hparts values hvalues name
    have halone : Alone path := fun name hname => (hparts name (parameter_shape hname).1).mpr hname
    by_cases hne : name = []
    · subst hne
      rw [if_neg fun hname => (parameter_shape hname).1 rfl, List.lookup_eq_none_iff]
      intro found hmem
      obtain ⟨part, -, hfound⟩ := List.mem_filterMap.mp hmem
      obtain ⟨other, hother, rfl⟩ := Option.map_eq_some_iff.mp hfound
      exact bne_iff_ne.mpr (Ne.symm (parameterName_eq_some.mp hother).1)
    · rw [hlookup halone hvalues hne]
      by_cases hname : name ∈ pathParameters path
      · rw [if_pos (halone name hname), if_pos hname,
          fillParameters_placeholder values hne (parameter_shape hname).2]
      · rw [if_neg hname, if_neg fun hpart => hname ((hparts name hne).mp hpart)]

/-- A path of an `api` block that the validator has nothing against. -/
def PassesEntityApi (entity : EntityDecl) (path : Bytes) : Prop :=
  Clean (validateEntityApi entity) ∧
    ∃ api, entity.api = some api ∧ (api.resource = some path ∨ ∃ list ∈ api.lists, list.path = some path)

/-- A parameter in front of a suffix is one for the compiler only. -/
theorem suffix_disagrees : ¬ ∀ entity path, PassesEntityApi entity path → (pathParameters path).Nodup →
    ParametersAgree path := by
  intro hagree
  have hpath := hagree
    (orderEntity { resource := some (ascii "/v1/\x7btenant_id\x7d/\x7border_id\x7d.json"), get := some {} })
    (ascii "/v1/\x7btenant_id\x7d/\x7border_id\x7d.json")
    ⟨by decide +kernel, _, rfl, .inl rfl⟩ (by decide)
  have hfits : FitsPath (ascii "/v1/\x7btenant_id\x7d/\x7border_id\x7d.json") fun _ => ascii "x" :=
    fun _ _ => ⟨List.cons_ne_nil _ _, by simp [ascii, byte]⟩
  have hfound := hpath _ hfits (ascii "order_id")
  revert hfound
  decide +kernel

end StateSpec.Compiler
